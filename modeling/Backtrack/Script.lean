import Backtrack.Driver

/-! Scripted callers. A script says which calls are refused, at which call the caller gives up, and
at which calls it requests another parse; the transcript holds what it was given and what those
requests answered. -/
namespace Backtrack

structure Script where
  refuse : List Nat := []
  crashAt : Option Nat := none
  reenterAt : List Nat := []
  crashReason : String := ""

structure Transcript (κ : Type) where
  calls : Array κ := #[]
  /-- Answers to the nested requests, each with the driver as it was then. -/
  nested : Array (Except Fault Outcome × Driver) := #[]

/-- Takes one call. `again` is the request that a re-entering caller makes. -/
def Script.take {κ : Type} (script : Script) (again : Unit → Except Fault Outcome × Driver)
    (transcript : Transcript κ) (call : κ) : Transcript κ × Reply :=
  let index := transcript.calls.size
  let nested :=
    if index ∈ script.reenterAt then transcript.nested.push (again ()) else transcript.nested
  let reply :=
    if script.crashAt = some index then .crash script.crashReason
    else if index ∈ script.refuse then .detach
    else .keep
  (⟨transcript.calls.push call, nested⟩, reply)

/-- How much of a notice a sink looks at. -/
inductive Detail where
  | plain
  | line
  | full
  deriving DecidableEq

/-- A notice as a sink sees it. -/
structure Seen where
  level : Level
  text : String
  line : Option Nat
  origin : Option String
  deriving DecidableEq

def Detail.see (detail : Detail) (notice : Notice) : Seen :=
  match detail with
  | plain => ⟨notice.level, notice.text, none, none⟩
  | line => ⟨notice.level, notice.text, some notice.line, none⟩
  | full => ⟨notice.level, notice.text, some notice.line, notice.origin⟩

structure SinkScript extends Script where
  detail : Detail := .full

def SinkScript.take (script : SinkScript) (again : Unit → Except Fault Outcome × Driver)
    (transcript : Transcript Seen) (notice : Notice) : Transcript Seen × Reply :=
  script.toScript.take again transcript (script.detail.see notice)

/-- A caller's two transcripts: calls on the receiver and messages to the sink. -/
structure Account (κ : Type) where
  receiver : Transcript κ := {}
  sink : Transcript Seen := {}

namespace Account

variable {κ : Type}

def call (a : Account κ) (script : Script) (again : Unit → Except Fault Outcome × Driver)
    (call : κ) : Account κ × Reply :=
  let (receiver, reply) := script.take again a.receiver call
  ({ a with receiver }, reply)

def message (a : Account κ) (script : SinkScript)
    (again : Unit → Except Fault Outcome × Driver) (notice : Notice) : Account κ × Reply :=
  let (sink, reply) := script.take again a.sink notice
  ({ a with sink }, reply)

def nested (a : Account κ) : List (Except Fault Outcome × Driver) :=
  a.receiver.nested.toList ++ a.sink.nested.toList

end Account

/-- A caller that accepts every message and remembers none. -/
def Host.deaf {α : Type} : Host Unit α := ⟨fun _ _ _ => ((), .keep), fun _ _ => pure true⟩

/-- What a recorded run leaves: the messages, and the journal if it was replayed. -/
structure Recorded (α : Type) where
  account : Account Unit := {}
  forest : Option (List (Tree α)) := none

/-- Runs `rule` with a scripted sink and a replay that records the journal, and then answers `valid`
or gives up. A sink that re-enters asks for a parse of one letter. -/
def Driver.recordRun {α : Type} (d : Driver) (rule : Rule α) (source : Source) (start stop : Nat)
    (script : SinkScript) (valid : Bool) (crash : Option String) : Parsed (Recorded α) :=
  let again (inside : Driver) (_ : Unit) :=
    let parsed := inside.parse Host.deaf (Rule.byte 0x78 : Rule Unit) #[0x78] 0 1 ()
    (parsed.outcome, parsed.driver)
  let sink (inside : Driver) (r : Recorded α) (notice : Notice) :=
    let (account, reply) := r.account.message script (again inside) notice
    ({ r with account }, reply)
  let replay (_ : Driver) (forest : List (Tree α)) : EStateM Fault (Recorded α) Bool := do
    modify ({ · with forest := some forest })
    match crash with
    | some reason => throw (.callback reason)
    | none => return valid
  d.parse ⟨sink, replay⟩ rule source start stop {}

end Backtrack
