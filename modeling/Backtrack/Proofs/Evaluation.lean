import Backtrack.Matcher

/-! Big-step evaluation of rules. `Evaluates` says how an attempt at a rule goes, from the state
that it starts in to its verdict, and lists the effects it performs with the state each of them
meets. Repetition has no bound there. Every theorem on runs is an induction on this relation. -/
namespace Backtrack

variable {σ α : Type}

/-- The bytes that may be matched. -/
def inputUpTo (source : Source) (stop : Nat) : Bytes := (source.extract 0 stop).toList

def Subject.input (s : Subject σ) : Bytes := inputUpTo s.source s.stop

/-- The stop of a subject lies inside its source. -/
def Subject.Bounded (s : Subject σ) : Prop := s.stop ≤ s.source.size

theorem Subject.upTo_bounded (source : Source) (stop : Nat) (monitor : Monitor σ) :
    (Subject.upTo source stop monitor).Bounded := Nat.min_le_right ..

theorem Subject.Bounded.length_input {s : Subject σ} (bounded : s.Bounded) :
    s.input.length = s.stop := by
  simp only [input, inputUpTo, Array.length_toList, Array.size_extract, Nat.sub_zero]
  exact Nat.min_eq_left bounded

/-- What a rule without parts matches. A rule with parts has no answer here. -/
def Rule.leaf? (input : Bytes) : Rule α → Nat → Option (Option Nat)
  | empty, pos => some (some pos)
  | nothing, _ => some none
  | literal bytes, pos =>
    some (if bytes <+: input.drop pos then some (pos + bytes.length) else none)
  | set s, pos => some (if (input[pos]?).any s.contains then some (pos + 1) else none)
  | endOfInput, pos => some (if pos = input.length then some pos else none)
  | skipTo terminators, pos =>
    some (((input.drop pos).findIdx? terminators.contains).map (pos + · + 1))
  | _, _ => none

abbrev Verdict (σ α : Type) := EStateM.Result Stop (Matching σ α) (Option Nat)

namespace Verdict

def position? : Verdict σ α → Option Nat
  | .ok m _ => m
  | .error _ _ => none

end Verdict

/-- The end of an attempt that began in `s` at `pos`. -/
def Matching.close (s : Matching σ α) (pos : Nat) : Verdict σ α → Verdict σ α
  | .ok (some next) s₁ =>
    .ok (some next) { s₁ with diagnostics := s₁.diagnostics.settle s.diagnostics.mark }
  | .ok none s₁ =>
    .ok none ⟨s₁.events.shrink s.events.size, s₁.diagnostics.rewind s.diagnostics.mark pos⟩
  | .error stop s₁ => .error stop s₁

@[simp] theorem Matching.position?_close (s : Matching σ α) (pos : Nat) (r : Verdict σ α) :
    (s.close pos r).position? = r.position? := by
  rcases r with ⟨_ | next, s₁⟩ | ⟨stop, s₁⟩ <;> rfl

/-- Fills the place that an action has reserved. -/
def Matching.fill (s : Matching σ α) (slot : Nat) (action : α) (start stop : Nat) :
    Matching σ α :=
  let event := .action action start stop (s.events.size - slot - 1)
  { s with events := s.events.setIfInBounds slot event }

/-- An effect that is performed for a match of `start..stop`, and the state that it meets. -/
structure Performance (σ : Type) where
  effect : Effect
  start : Nat
  stop : Nat
  state : Diagnostics σ

def Performance.outcome (subject : Subject σ) (p : Performance σ) :
    EStateM.Result Stop (Diagnostics σ) Unit :=
  match Span.between subject.source p.start p.stop with
  | .ok span => Diagnostics.apply subject.monitor p.effect span p.state
  | .error fault => .error (.fault fault) p.state

/-- The two halves of an attempt: matching alone, and with what is taken back or settled at its
end. -/
inductive Stage where
  | body
  | attempt

/-- An attempt at a rule at a position in a state performs effects and ends in a verdict. -/
inductive Evaluates (subject : Subject σ) :
    Stage → Rule α → Bool → Nat → Matching σ α → List (Performance σ) → Verdict σ α → Prop where
  | leaf {rule silent pos s m} :
      rule.leaf? subject.input pos = some m →
      Evaluates subject .body rule silent pos s [] (.ok m s)
  | seqEnd {a b silent pos s t r} :
      Evaluates subject .attempt a silent pos s t r → r.position? = none →
      Evaluates subject .body (.seq a b) silent pos s t r
  | seqNext {a b silent pos s t next s₁ u r} :
      Evaluates subject .attempt a silent pos s t (.ok (some next) s₁) →
      Evaluates subject .attempt b silent next s₁ u r →
      Evaluates subject .body (.seq a b) silent pos s (t ++ u) r
  | choiceEnd {a b silent pos s t r} :
      Evaluates subject .attempt a silent pos s t r → (∀ s₁, r ≠ .ok none s₁) →
      Evaluates subject .body (.choice a b) silent pos s t r
  | choiceNext {a b silent pos s t s₁ u r} :
      Evaluates subject .attempt a silent pos s t (.ok none s₁) →
      Evaluates subject .attempt b silent pos s₁ u r →
      Evaluates subject .body (.choice a b) silent pos s (t ++ u) r
  | differenceEnd {a b silent pos s t r} :
      Evaluates subject .attempt a silent pos s t r → r.position? = none →
      Evaluates subject .body (.difference a b) silent pos s t r
  | differenceStop {a b silent pos s t next s₁ u e s₂} :
      Evaluates subject .attempt a silent pos s t (.ok (some next) s₁) →
      Evaluates subject .attempt b true pos s₁ u (.error e s₂) →
      Evaluates subject .body (.difference a b) silent pos s (t ++ u) (.error e s₂)
  | differenceNext {a b silent pos s t next s₁ u m s₂} :
      Evaluates subject .attempt a silent pos s t (.ok (some next) s₁) →
      Evaluates subject .attempt b true pos s₁ u (.ok m s₂) →
      Evaluates subject .body (.difference a b) silent pos s (t ++ u)
        (.ok (if m.any (next ≤ ·) then none else some next) s₂)
  | optionalStop {a silent pos s t e s₁} :
      Evaluates subject .attempt a silent pos s t (.error e s₁) →
      Evaluates subject .body (.optional a) silent pos s t (.error e s₁)
  | optionalNext {a silent pos s t m s₁} :
      Evaluates subject .attempt a silent pos s t (.ok m s₁) →
      Evaluates subject .body (.optional a) silent pos s t (.ok (some (m.getD pos)) s₁)
  | manyStop {a silent pos s t e s₁} :
      Evaluates subject .attempt a silent pos s t (.error e s₁) →
      Evaluates subject .body (.many a) silent pos s t (.error e s₁)
  | manyEnd {a silent pos s t m s₁} :
      Evaluates subject .attempt a silent pos s t (.ok m s₁) → m = none ∨ m = some pos →
      Evaluates subject .body (.many a) silent pos s t (.ok (some pos) s₁)
  | manyNext {a silent pos s t next s₁ u r} :
      Evaluates subject .attempt a silent pos s t (.ok (some next) s₁) → next ≠ pos →
      Evaluates subject .body (.many a) silent next s₁ u r →
      Evaluates subject .body (.many a) silent pos s (t ++ u) r
  | many1End {a silent pos s t r} :
      Evaluates subject .attempt a silent pos s t r →
      r.position? = none ∨ r.position? = some pos →
      Evaluates subject .body (.many1 a) silent pos s t r
  | many1Next {a silent pos s t next s₁ u r} :
      Evaluates subject .attempt a silent pos s t (.ok (some next) s₁) → next ≠ pos →
      Evaluates subject .body (.many a) silent next s₁ u r →
      Evaluates subject .body (.many1 a) silent pos s (t ++ u) r
  | actionSilent {a act pos s t r} :
      Evaluates subject .attempt a true pos s t r →
      Evaluates subject .body (.action a act) true pos s t r
  | actionEnd {a act pos s t r} :
      Evaluates subject .attempt a false pos ⟨s.events.push .placeholder, s.diagnostics⟩ t r →
      r.position? = none →
      Evaluates subject .body (.action a act) false pos s t r
  | actionNext {a act pos s t next s₁} :
      Evaluates subject .attempt a false pos ⟨s.events.push .placeholder, s.diagnostics⟩ t
        (.ok (some next) s₁) →
      Evaluates subject .body (.action a act) false pos s t
        (.ok (some next) (s₁.fill s.events.size act pos next))
  | effectSilent {a e pos s t r} :
      Evaluates subject .attempt a true pos s t r →
      Evaluates subject .body (.effect a e) true pos s t r
  | effectEnd {a e pos s t r} :
      Evaluates subject .attempt a false pos s t r → r.position? = none →
      Evaluates subject .body (.effect a e) false pos s t r
  | effectStop {a e pos s t next s₁ stop d} :
      Evaluates subject .attempt a false pos s t (.ok (some next) s₁) →
      (Performance.mk e pos next s₁.diagnostics).outcome subject = .error stop d →
      Evaluates subject .body (.effect a e) false pos s (t ++ [⟨e, pos, next, s₁.diagnostics⟩])
        (.error stop ⟨s₁.events, d⟩)
  | effectNext {a e pos s t next s₁ d} :
      Evaluates subject .attempt a false pos s t (.ok (some next) s₁) →
      (Performance.mk e pos next s₁.diagnostics).outcome subject = .ok () d →
      Evaluates subject .body (.effect a e) false pos s (t ++ [⟨e, pos, next, s₁.diagnostics⟩])
        (.ok (some next) ⟨s₁.events, d⟩)
  | close {rule silent pos s t r} :
      Evaluates subject .body rule silent pos s t r →
      Evaluates subject .attempt rule silent pos s t (s.close pos r)

/-- What the matcher answers at a stage of an attempt. -/
def Stage.verdict (stage : Stage) (subject : Subject σ) (rule : Rule α) (silent : Bool) (pos : Nat)
    (s : Matching σ α) : Verdict σ α :=
  match stage with
  | .body => rule.step subject silent pos s
  | .attempt => rule.run subject silent pos s

theorem Rule.leaf?_advances {input : Bytes} {rule : Rule α} {pos next : Nat}
    (h : rule.leaf? input pos = some (some next)) (inside : pos ≤ input.length) :
    pos ≤ next ∧ next ≤ input.length := by
  cases rule <;> simp only [leaf?, Option.some.injEq, reduceCtorEq] at h
  case empty => omega
  case literal bytes =>
    split at h
    next found =>
      have := found.length_le
      simp only [List.length_drop] at this
      simp only [Option.some.injEq] at h
      omega
    next => contradiction
  case set =>
    split at h
    next found =>
      obtain ⟨b, here, -⟩ := (Option.any_eq_true _ _).mp found
      obtain ⟨bound, -⟩ := List.getElem?_eq_some_iff.mp here
      simp only [Option.some.injEq] at h
      omega
    next => contradiction
  case endOfInput =>
    split at h
    next => simp only [Option.some.injEq] at h; omega
    next => contradiction
  case skipTo =>
    obtain ⟨offset, found, rfl⟩ := Option.map_eq_some_iff.mp h
    have := (List.findIdx?_eq_some_iff_findIdx_eq.mp found).1
    simp only [List.length_drop] at this
    omega

/-- A match never moves back and never passes the end. -/
theorem Evaluates.advances {subject : Subject σ} {stage : Stage} {rule : Rule α} {silent : Bool}
    {pos : Nat} {s : Matching σ α} {t : List (Performance σ)} {r : Verdict σ α}
    (h : Evaluates subject stage rule silent pos s t r) (inside : pos ≤ subject.input.length)
    {next : Nat} (matched : r.position? = some next) :
    pos ≤ next ∧ next ≤ subject.input.length := by
  induction h generalizing next with
  | leaf found =>
    cases matched
    exact Rule.leaf?_advances found inside
  | seqEnd _ ends => simp [ends] at matched
  | seqNext _ _ ih₁ ih₂ =>
    have first := ih₁ inside rfl
    have second := ih₂ first.2 matched
    omega
  | choiceEnd _ _ ih => exact ih inside matched
  | choiceNext _ _ _ ih₂ => exact ih₂ inside matched
  | differenceEnd _ ends => simp [ends] at matched
  | differenceStop => simp [Verdict.position?] at matched
  | differenceNext _ _ ih₁ _ =>
    simp only [Verdict.position?] at matched
    split at matched
    · contradiction
    · cases matched
      exact ih₁ inside rfl
  | optionalStop => simp [Verdict.position?] at matched
  | @optionalNext _ _ _ _ _ m _ _ ih =>
    cases matched
    cases m with
    | none => exact ⟨Nat.le_refl _, inside⟩
    | some next => exact ih inside rfl
  | manyStop => simp [Verdict.position?] at matched
  | manyEnd =>
    cases matched
    exact ⟨Nat.le_refl _, inside⟩
  | manyNext _ _ _ ih₁ ih₂ =>
    have first := ih₁ inside rfl
    have rest := ih₂ first.2 matched
    omega
  | many1End _ _ ih => exact ih inside matched
  | many1Next _ _ _ ih₁ ih₂ =>
    have first := ih₁ inside rfl
    have rest := ih₂ first.2 matched
    omega
  | actionSilent _ ih => exact ih inside matched
  | actionEnd _ ends => simp [ends] at matched
  | actionNext _ ih => exact ih inside matched
  | effectSilent _ ih => exact ih inside matched
  | effectEnd _ ends => simp [ends] at matched
  | effectStop => simp [Verdict.position?] at matched
  | effectNext _ _ ih => exact ih inside matched
  | close _ ih => exact ih inside (by simpa using matched)

theorem Evaluates.onward {subject : Subject σ} {stage : Stage} {rule : Rule α} {silent : Bool}
    {pos next : Nat} {s s₁ : Matching σ α} {t : List (Performance σ)}
    (h : Evaluates subject stage rule silent pos s t (.ok (some next) s₁))
    (bounded : subject.Bounded) (inside : pos ≤ subject.stop) :
    pos ≤ next ∧ next ≤ subject.stop := by
  have moved := h.advances (bounded.length_input ▸ inside) rfl
  exact bounded.length_input ▸ moved

end Backtrack
