import Backtrack.Breadcrumb
import Backtrack.Effect

/-! Messages under backtracking. A pending message waits on a stack. When the attempt that pushed it
fails it moves to the abandoned list, with its height and the place where the attempt started, and a
success further out forgets it there. Messages that have been sent stay sent; each error is charged
to the budget, and the error that reaches it aborts the parse. -/
namespace Backtrack

structure Entry where
  message : Message
  line : Nat
  deriving DecidableEq

def Entry.notice (entry : Entry) : Notice := { entry.message with line := entry.line }

structure Abandoned where
  entry : Entry
  /-- Index that the entry had on the stack. -/
  height : Nat
  /-- Where the failed attempt started. -/
  start : Nat
  /-- Sent already, and so skipped by the final flush. -/
  claimed : Bool
  deriving DecidableEq

/-- Pending entries, bottom first, and the entries that failed attempts left. -/
structure Pending where
  stack : Array Entry := #[]
  abandoned : Array Abandoned := #[]
  deriving DecidableEq

namespace Pending

def depth (p : Pending) : Nat := p.stack.size

def isEmpty (p : Pending) : Bool := p.stack.isEmpty && p.abandoned.isEmpty

def texts (p : Pending) : List String := p.stack.toList.map (·.message.text)

def push (p : Pending) (entry : Entry) : Pending := { p with stack := p.stack.push entry }

def pop (p : Pending) : Pending := { p with stack := p.stack.pop }

/-- Moves the entries from `depth` on to the abandoned list, top first. -/
def abandonFrom (p : Pending) (depth start : Nat) : Pending :=
  if p.stack.size ≤ depth then p
  else
    let failed := ((p.stack.extract depth p.stack.size).toList.zipIdx depth).map
      fun (entry, height) => (⟨entry, height, start, false⟩ : Abandoned)
    ⟨p.stack.shrink depth, p.abandoned ++ failed.reverse⟩

def Claimable (p : Pending) (start : Nat) (a : Abandoned) : Prop :=
  a.claimed = false ∧ a.start = start ∧ p.depth ≤ a.height

instance (p : Pending) (start : Nat) (a : Abandoned) : Decidable (p.Claimable start a) := by
  unfold Claimable; infer_instance

/-- The highest claimable entry, and the latest among equals. -/
def claimIndex? (p : Pending) (start : Nat) : Option Nat :=
  (p.abandoned.toList.zipIdx.foldl (fun best (a, index) =>
    if p.Claimable start a then
      match best with
      | some (height, _) => if height ≤ a.height then some (a.height, index) else best
      | none => some (a.height, index)
    else best) (none : Option (Nat × Nat))).map (·.2)

def claim? (p : Pending) (start : Nat) : Option (Entry × Pending) := do
  let index ← p.claimIndex? start
  let found ← p.abandoned[index]?
  return (found.entry,
    { p with abandoned := p.abandoned.setIfInBounds index { found with claimed := true } })

end Pending

/-- Why an operation ended early. -/
inductive Stop where
  | aborted (errors : Nat)
  | fault (fault : Fault)
  deriving DecidableEq

def abortText (errors : Nat) : String :=
  s!"too many errors found ({errors} at or above minor severity)"

/-- What a function supplied by the caller answers: go on, call no more, or give up. -/
inductive Reply where
  | keep
  | detach
  | crash (reason : String)
  deriving DecidableEq

/-- What stays fixed during one parse: the line table, the error budget and the caller's sink, a
function on the caller's own state. -/
structure Monitor (σ : Type) where
  lines : LineIndex
  budget : Nat
  sink : σ → Notice → σ × Reply

structure Diagnostics (σ : Type) where
  pending : Pending := {}
  crumbs : Breadcrumbs := {}
  report : Report := {}
  /-- Text of the last message sent. -/
  last : Option String := none
  /-- The sink asked for no more messages. -/
  detached : Bool := false
  world : σ

abbrev Diagnosing (σ : Type) := EStateM Stop (Diagnostics σ)

/-- A snapshot of depths, taken when a rule starts. -/
structure DiagnosticMark where
  depth : Nat
  abandoned : Nat
  crumbs : Nat

namespace Diagnostics

variable {σ : Type}

/-- Hands a message to the sink, without touching the budget. -/
def deliver (m : Monitor σ) (notice : Notice) : Diagnosing σ Unit := fun d =>
  if d.detached then .ok () d
  else match m.sink d.world notice with
    | (world, .keep) => .ok () { d with world }
    | (world, .detach) => .ok () { d with world, detached := true }
    | (world, .crash reason) => .error (.fault (.callback reason)) { d with world }

/-- An error is introduced by the innermost scope. -/
def introduce (m : Monitor σ) (notice : Notice) : Diagnosing σ Unit := fun d =>
  match notice.level.isError, d.crumbs.top? with
  | true, some crumb => deliver m ⟨⟨.content, crumb.render, none⟩, notice.line⟩ d
  | _, _ => .ok () d

/-- Enters a sent message in the report, and aborts when the budget is used up. -/
def charge (m : Monitor σ) (notice : Notice) : Diagnosing σ Unit := fun d =>
  let errors := d.report.errors + if notice.level.isError then 1 else 0
  let d := { d with
    report := ⟨errors, max d.report.highest notice.level⟩
    last := some notice.text }
  if notice.level.isError ∧ m.budget ≤ errors then .error (.aborted errors) d else .ok () d

def send (m : Monitor σ) (notice : Notice) : Diagnosing σ Unit := do
  introduce m notice
  deliver m notice
  charge m notice

def crumbAt (m : Monitor σ) (label : String) (span : Span) : Breadcrumb :=
  ⟨label, span.text, some (m.lines.position span.start)⟩

/-- Performs `effect` for a rule that matched `span`. -/
def apply (m : Monitor σ) (effect : Effect) (span : Span) : Diagnosing σ Unit := fun d =>
  let line := m.lines.line span.start
  match effect with
  | .push message => .ok () { d with pending := d.pending.push ⟨message, line⟩ }
  | .prepare message =>
    if d.pending.depth = 0 then .error (.fault (.nothingToPrepare message.text)) d
    else .ok () { d with pending := d.pending.pop.push ⟨message, line⟩ }
  | .cancel =>
    if d.pending.depth = 0 then .error (.fault (.nothingToCancel line)) d
    else .ok () { d with pending := d.pending.pop }
  | .pop =>
    match d.pending.stack.back? with
    | some entry => send m entry.notice { d with pending := d.pending.pop }
    | none => .ok () d
  | .popAbandoned =>
    match d.pending.claim? span.start with
    | some (entry, pending) => send m entry.notice { d with pending }
    | none => .ok () d
  | .sendNow message => send m { message with line } d
  | .enterScope label => .ok () { d with crumbs := d.crumbs.push (crumbAt m label span) }
  | .leaveScope => .ok () { d with crumbs := d.crumbs.pop }
  | .replaceScope label => .ok () { d with crumbs := d.crumbs.replace (crumbAt m label span) }

/-- The closing pair of messages after the budget is used up. The second repeats the last message
unless `restatement` stands in for it; neither is charged. -/
def announceAbort (m : Monitor σ) (restatement : Option String) : Diagnosing σ Unit := do
  let last := (← get).last.getD ""
  modify ({ · with last := none })
  deliver m ⟨.fatal "Too many errors found. Stopping parsing.", 0⟩
  deliver m ⟨.fatal (restatement.getD last), 0⟩
  modify fun d => { d with report.highest := max d.report.highest .fatal }

/-- Sends what the attempts that led to a failure of the root rule left behind. -/
def flushAbandoned (m : Monitor σ) : Diagnosing σ Unit := do
  let abandoned := (← get).pending.abandoned
  modify ({ · with pending.abandoned := #[] })
  (abandoned.toList.filter (!·.claimed)).forM fun a => send m a.entry.notice

/-- Empties both stacks and returns how many entries were pending. -/
def drain : Diagnosing σ Nat := fun d =>
  .ok d.pending.depth { d with pending := {}, crumbs := {} }

def mark (d : Diagnostics σ) : DiagnosticMark :=
  ⟨d.pending.stack.size, d.pending.abandoned.size, d.crumbs.depth⟩

/-- Takes back what an attempt that started at `start` and failed has put on the stacks. -/
def rewind (d : Diagnostics σ) (mark : DiagnosticMark) (start : Nat) : Diagnostics σ :=
  { d with
    pending := d.pending.abandonFrom mark.depth start
    crumbs := d.crumbs.truncate mark.crumbs }

/-- Forgets the failures that an enclosing success recovered from. -/
def settle (d : Diagnostics σ) (mark : DiagnosticMark) : Diagnostics σ :=
  { d with pending.abandoned := d.pending.abandoned.shrink mark.abandoned }

end Diagnostics
end Backtrack
