import Backtrack.Diagnostics
import Backtrack.Journal
import Backtrack.Rule

/-! Matching with backtracking. `run` either matches and returns the position after the match, or
fails and takes back what the attempt has entered in the journal and put on the stacks. An attempt
that stops early is not taken back. In a silent run actions and effects do nothing: that is how
`a \ b` asks whether `b` matches. -/
namespace Backtrack

structure Matching (σ α : Type) where
  events : Array (Event α) := #[]
  diagnostics : Diagnostics σ

abbrev MatchM (σ α : Type) := EStateM Stop (Matching σ α)

/-- The part of a source that is matched, up to `stop`, and the monitor of its messages. -/
structure Subject (σ : Type) where
  source : Source
  stop : Nat
  monitor : Monitor σ

def Subject.upTo {σ : Type} (source : Source) (stop : Nat) (monitor : Monitor σ) : Subject σ :=
  ⟨source, min stop source.size, monitor⟩

namespace Subject

variable {σ : Type}

def at? (s : Subject σ) (pos : Nat) : Option UInt8 := if pos < s.stop then s.source[pos]? else none

def holds (s : Subject σ) : Bytes → Nat → Bool
  | [], _ => true
  | b :: bytes, pos => s.at? pos == some b && s.holds bytes (pos + 1)

/-- The place after the first byte of the set at `pos` or later. -/
def after? (s : Subject σ) (set : CharSet) (pos : Nat) : Option Nat :=
  if pos < s.stop then
    if (s.source[pos]?).any set.contains then some (pos + 1) else s.after? set (pos + 1)
  else none
termination_by s.stop - pos

end Subject

namespace Matching

variable {σ α : Type}

def onDiagnostics {β : Type} (op : Diagnosing σ β) : MatchM σ α β := fun ⟨events, diagnostics⟩ =>
  match op diagnostics with
  | .ok result diagnostics => .ok result ⟨events, diagnostics⟩
  | .error stop diagnostics => .error stop ⟨events, diagnostics⟩

/-- Runs `body` at `pos` as one transaction. -/
def attempt (body : MatchM σ α (Option Nat)) (pos : Nat) : MatchM σ α (Option Nat) := fun s =>
  let recorded := s.events.size
  let mark := s.diagnostics.mark
  match body s with
  | .ok (some next) ⟨events, diagnostics⟩ => .ok (some next) ⟨events, diagnostics.settle mark⟩
  | .ok none ⟨events, diagnostics⟩ =>
    .ok none ⟨events.shrink recorded, diagnostics.rewind mark pos⟩
  | .error stop s => .error stop s

/-- Repeats `body` from `pos` until it fails or matches nothing more. -/
def iterate (body : Nat → MatchM σ α (Option Nat)) (limit pos : Nat) : MatchM σ α Nat := fun s =>
  match body pos s with
  | .ok (some next) s => if pos < next ∧ next ≤ limit then iterate body limit next s else .ok pos s
  | .ok none s => .ok pos s
  | .error stop s => .error stop s
termination_by limit - pos

/-- Reserves a place in the journal, runs `body`, and fills the place in. -/
def record (body : MatchM σ α (Option Nat)) (action : α) (pos : Nat) : MatchM σ α (Option Nat) :=
  fun ⟨events, diagnostics⟩ =>
    let slot := events.size
    match body ⟨events.push .placeholder, diagnostics⟩ with
    | .ok (some next) ⟨events, diagnostics⟩ =>
      let nested := events.size - slot - 1
      .ok (some next) ⟨events.setIfInBounds slot (.action action pos next nested), diagnostics⟩
    | result => result

def perform (subject : Subject σ) (effect : Effect) (start stop : Nat) : MatchM σ α Unit :=
  match Span.between subject.source start stop with
  | .ok span => onDiagnostics (Diagnostics.apply subject.monitor effect span)
  | .error fault => throw (.fault fault)

end Matching

open Matching in
/-- Matches a rule without the transaction around it. -/
def Rule.step {σ α : Type} (subject : Subject σ) :
    Rule α → (silent : Bool) → Nat → MatchM σ α (Option Nat)
  | empty, _, pos => pure (some pos)
  | nothing, _, _ => pure none
  | literal bytes, _, pos =>
    pure (if subject.holds bytes pos then some (pos + bytes.length) else none)
  | set s, _, pos => pure (if (subject.at? pos).any s.contains then some (pos + 1) else none)
  | endOfInput, _, pos => pure (if pos = subject.stop then some pos else none)
  | skipTo terminators, _, pos => pure (subject.after? terminators pos)
  | seq first second, silent, pos => do
    match ← attempt (first.step subject silent pos) pos with
    | some next => attempt (second.step subject silent next) next
    | none => return none
  | choice left right, silent, pos => do
    match ← attempt (left.step subject silent pos) pos with
    | some next => return some next
    | none => attempt (right.step subject silent pos) pos
  | difference keep excluded, silent, pos => do
    match ← attempt (keep.step subject silent pos) pos with
    | some next =>
      match ← attempt (excluded.step subject true pos) pos with
      | some other => return if next ≤ other then none else some next
      | none => return some next
    | none => return none
  | optional rule, silent, pos => do
    return some ((← attempt (rule.step subject silent pos) pos).getD pos)
  | many rule, silent, pos => do
    return some (← iterate (fun pos => attempt (rule.step subject silent pos) pos) subject.stop pos)
  | many1 rule, silent, pos => do
    match ← attempt (rule.step subject silent pos) pos with
    | some next =>
      if next = pos then return some pos
      return some
        (← iterate (fun pos => attempt (rule.step subject silent pos) pos) subject.stop next)
    | none => return none
  | action rule _, true, pos => attempt (rule.step subject true pos) pos
  | action rule a, false, pos => record (attempt (rule.step subject false pos) pos) a pos
  | effect rule _, true, pos => attempt (rule.step subject true pos) pos
  | effect rule e, false, pos => do
    match ← attempt (rule.step subject false pos) pos with
    | some next =>
      perform subject e pos next
      return some next
    | none => return none

/-- Matches `rule` at `pos` and returns the position after the match. -/
def Rule.run {σ α : Type} (subject : Subject σ) (rule : Rule α) (silent : Bool) (pos : Nat) :
    MatchM σ α (Option Nat) :=
  Matching.attempt (rule.step subject silent pos) pos

end Backtrack
