import Backtrack.Proofs.Outlook
import Backtrack.Proofs.Trail

/-! What a rule begins with. A rule that has to begin with a byte of some class is over at once
where another byte stands: the attempt fails, performs nothing and leaves its state as it was. So
of two rules that begin apart, at most one gets anywhere. -/
namespace Backtrack

open Outlook (Allows)

variable {σ α : Type}

/-- The bytes that the rule begins with, if it has to begin with a byte. -/
def Rule.opening? : Rule α → Option CharSet
  | set s => some s
  | literal bytes => bytes.head?.map (.ofBytes [·])
  | seq a _ | difference a _ | many1 a | action a _ | effect a _ => a.opening?
  | choice a b => Outlook.union a.opening? b.opening?
  | _ => none

section Openings

variable {subject : Subject σ} {stage : Stage} {rule : Rule α} {silent : Bool} {pos : Nat}
  {s : Matching σ α} {t : List (Performance σ)} {r : Verdict σ α}

theorem Rule.leaf?_unopened {input : Bytes} {m : Option Nat}
    (closed : ¬ Allows rule.opening? input[pos]?) (found : rule.leaf? input pos = some m) :
    m = none := by
  cases rule with
  | set s =>
    simp only [leaf?, Option.some.injEq] at found
    split at found
    next begins =>
      obtain ⟨b, here, member⟩ := (Option.any_eq_true _ _).mp begins
      refine absurd (fun t same => ?_) closed
      cases same
      exact ⟨b, here, member⟩
    next => exact found.symm
  | literal bytes =>
    simp only [leaf?, Option.some.injEq] at found
    split at found
    next begins =>
      refine absurd (fun t same => ?_) closed
      obtain ⟨b, first, rfl⟩ := Option.map_eq_some_iff.mp same
      obtain ⟨rest, rfl⟩ := List.head?_eq_some_iff.mp first
      obtain ⟨more, behind⟩ := begins
      have here := congrArg (·[0]?) behind
      exact ⟨b, by simpa using here.symm, CharSet.contains_ofBytes_singleton b⟩
    next => exact found.symm
  | seq | choice | difference | optional | many | many1 | action | effect => simp [leaf?] at found
  | _ => exact absurd Outlook.allows_none closed

/-- Over without a match, with nothing to be taken back but places reserved in the journal. -/
def Verdict.Unmoved (s : Matching σ α) : Stage → Verdict σ α → Prop
  | .body, r => ∃ events, r = .ok none ⟨events, s.diagnostics⟩ ∧
      events.shrink s.events.size = s.events
  | .attempt, r => r = .ok none s

theorem Verdict.Unmoved.of_attempt (h : r.Unmoved s .attempt) : r.Unmoved s .body :=
  ⟨s.events, h, by simp [Array.shrink_eq_take]⟩

/-- Where another byte stands than the rule begins with, nothing happens. -/
theorem Evaluates.unopened (h : Evaluates subject stage rule silent pos s t r)
    (closed : ¬ Allows rule.opening? subject.input[pos]?) : t = [] ∧ r.Unmoved s stage := by
  induction h with
  | @leaf _ _ _ s _ found =>
    obtain rfl := Rule.leaf?_unopened closed found
    exact ⟨rfl, Verdict.Unmoved.of_attempt rfl⟩
  | seqEnd _ _ ih | differenceEnd _ _ ih | many1End _ _ ih | actionSilent _ ih | effectSilent _ ih
  | effectEnd _ _ ih =>
    obtain ⟨rfl, unmoved⟩ := ih closed
    exact ⟨rfl, unmoved.of_attempt⟩
  | seqNext _ _ ih | differenceStop _ _ ih | differenceNext _ _ ih | many1Next _ _ _ ih
  | effectStop _ _ ih | effectNext _ _ ih =>
    cases (ih closed).2
  | choiceEnd _ ends ih =>
    exact absurd (ih fun left => closed left.left).2 (ends _)
  | choiceNext _ _ ih₁ ih₂ =>
    obtain ⟨rfl, unmoved⟩ := ih₁ fun left => closed left.left
    cases unmoved
    obtain ⟨rfl, unmoved⟩ := ih₂ fun right => closed right.right
    exact ⟨rfl, unmoved.of_attempt⟩
  | optionalStop | optionalNext | manyStop | manyEnd | manyNext =>
    exact absurd Outlook.allows_none closed
  | @actionEnd _ _ _ s _ _ _ _ ih =>
    obtain ⟨rfl, unmoved⟩ := ih closed
    exact ⟨rfl, s.events.push .placeholder, unmoved, by simp [Array.shrink_eq_take]⟩
  | actionNext _ ih => cases (ih closed).2
  | close _ ih =>
    obtain ⟨rfl, events, rfl, taken⟩ := ih closed
    refine ⟨rfl, ?_⟩
    simp only [Verdict.Unmoved, Matching.close, taken, Diagnostics.rewind_mark]

end Openings
end Backtrack
