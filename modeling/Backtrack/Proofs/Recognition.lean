import Mathlib.Logic.ExistsUnique
import Backtrack.Proofs.Adequacy
import Backtrack.Proofs.Trail

/-! What a rule recognises, with no state at all: a rule at a position either fails or matches up to
another position. Every run of the matcher that returns agrees with it, whatever messages wait and
whatever the sink does, so notes on a rule never change where it matches. -/
namespace Backtrack

variable {σ α : Type}

/-- Choice prefers its left side, a difference fails when the excluded rule reaches at least as far,
and a repetition goes on until its rule fails or matches nothing. -/
inductive Recognizes (input : Bytes) : Rule α → Nat → Option Nat → Prop where
  | leaf {rule pos m} : rule.leaf? input pos = some m → Recognizes input rule pos m
  | seqFail {a b pos} : Recognizes input a pos none → Recognizes input (.seq a b) pos none
  | seq {a b pos next m} : Recognizes input a pos (some next) → Recognizes input b next m →
      Recognizes input (.seq a b) pos m
  | choiceLeft {a b pos next} : Recognizes input a pos (some next) →
      Recognizes input (.choice a b) pos (some next)
  | choiceRight {a b pos m} : Recognizes input a pos none → Recognizes input b pos m →
      Recognizes input (.choice a b) pos m
  | differenceFail {a b pos} : Recognizes input a pos none →
      Recognizes input (.difference a b) pos none
  | difference {a b pos next m} : Recognizes input a pos (some next) → Recognizes input b pos m →
      Recognizes input (.difference a b) pos (if m.any (next ≤ ·) then none else some next)
  | optional {a pos m} : Recognizes input a pos m →
      Recognizes input (.optional a) pos (some (m.getD pos))
  | manyEnd {a pos m} : Recognizes input a pos m → m = none ∨ m = some pos →
      Recognizes input (.many a) pos (some pos)
  | manyNext {a pos next m} : Recognizes input a pos (some next) → next ≠ pos →
      Recognizes input (.many a) next m → Recognizes input (.many a) pos m
  | many1End {a pos m} : Recognizes input a pos m → m = none ∨ m = some pos →
      Recognizes input (.many1 a) pos m
  | many1Next {a pos next m} : Recognizes input a pos (some next) → next ≠ pos →
      Recognizes input (.many a) next m → Recognizes input (.many1 a) pos m
  | action {a act pos m} : Recognizes input a pos m → Recognizes input (.action a act) pos m
  | effect {a e pos m} : Recognizes input a pos m → Recognizes input (.effect a e) pos m

theorem Recognizes.unique {input : Bytes} {rule : Rule α} {pos : Nat} {m m' : Option Nat}
    (first : Recognizes input rule pos m) (second : Recognizes input rule pos m') : m = m' := by
  induction first generalizing m' with
  | leaf found =>
    cases second with
    | leaf found' => exact Option.some.inj (found.symm.trans found')
    | _ => simp [Rule.leaf?] at found
  | seqFail _ ih =>
    cases second with
    | leaf found => simp [Rule.leaf?] at found
    | seqFail => rfl
    | seq first => cases ih first
  | seq _ _ ih₁ ih₂ =>
    cases second with
    | leaf found => simp [Rule.leaf?] at found
    | seqFail first => cases ih₁ first
    | seq first rest => cases ih₁ first; exact ih₂ rest
  | choiceLeft _ ih =>
    cases second with
    | leaf found => simp [Rule.leaf?] at found
    | choiceLeft left => exact ih left
    | choiceRight left => cases ih left
  | choiceRight _ _ ih₁ ih₂ =>
    cases second with
    | leaf found => simp [Rule.leaf?] at found
    | choiceLeft left => cases ih₁ left
    | choiceRight _ right => exact ih₂ right
  | differenceFail _ ih =>
    cases second with
    | leaf found => simp [Rule.leaf?] at found
    | differenceFail => rfl
    | difference keep => cases ih keep
  | difference _ _ ih₁ ih₂ =>
    cases second with
    | leaf found => simp [Rule.leaf?] at found
    | differenceFail keep => cases ih₁ keep
    | difference keep excluded => cases ih₁ keep; cases ih₂ excluded; rfl
  | optional _ ih =>
    cases second with
    | leaf found => simp [Rule.leaf?] at found
    | optional part => rw [ih part]
  | manyEnd _ last ih =>
    cases second with
    | leaf found => simp [Rule.leaf?] at found
    | manyEnd => rfl
    | manyNext part apart => have := ih part; grind
  | manyNext _ apart _ ih₁ ih₂ =>
    cases second with
    | leaf found => simp [Rule.leaf?] at found
    | manyEnd part last => have := ih₁ part; grind
    | manyNext part _ rest => cases ih₁ part; exact ih₂ rest
  | many1End _ last ih =>
    cases second with
    | leaf found => simp [Rule.leaf?] at found
    | many1End part => exact ih part
    | many1Next part apart => have := ih part; grind
  | many1Next _ apart _ ih₁ ih₂ =>
    cases second with
    | leaf found => simp [Rule.leaf?] at found
    | many1End part last => have := ih₁ part; grind
    | many1Next part _ rest => cases ih₁ part; exact ih₂ rest
  | action _ ih =>
    cases second with
    | leaf found => simp [Rule.leaf?] at found
    | action part => exact ih part
  | effect _ ih =>
    cases second with
    | leaf found => simp [Rule.leaf?] at found
    | effect part => exact ih part

/-- An evaluation that returns matches what the rule recognises. -/
theorem Evaluates.recognizes {subject : Subject σ} {stage : Stage} {rule : Rule α} {silent : Bool}
    {pos : Nat} {s s' : Matching σ α} {t : List (Performance σ)} {m : Option Nat}
    (h : Evaluates subject stage rule silent pos s t (.ok m s')) :
    Recognizes subject.input rule pos m := by
  generalize returned : EStateM.Result.ok m s' = r at h
  induction h generalizing m s' with
  | leaf found => cases returned; exact .leaf found
  | @seqEnd _ _ _ _ _ _ r _ ends ih =>
    subst returned
    cases ends
    exact .seqFail (ih rfl)
  | seqNext _ _ ih₁ ih₂ => exact .seq (ih₁ rfl) (ih₂ returned)
  | choiceEnd _ ends ih =>
    subst returned
    cases m with
    | none => exact absurd rfl (ends s')
    | some next => exact .choiceLeft (ih rfl)
  | choiceNext _ _ ih₁ ih₂ => exact .choiceRight (ih₁ rfl) (ih₂ returned)
  | differenceEnd _ ends ih =>
    subst returned
    cases ends
    exact .differenceFail (ih rfl)
  | differenceStop => cases returned
  | differenceNext _ _ ih₁ ih₂ => cases returned; exact .difference (ih₁ rfl) (ih₂ rfl)
  | optionalStop => cases returned
  | optionalNext _ ih => cases returned; exact .optional (ih rfl)
  | manyStop => cases returned
  | manyEnd _ last ih => cases returned; exact .manyEnd (ih rfl) last
  | manyNext _ apart _ ih₁ ih₂ => exact .manyNext (ih₁ rfl) apart (ih₂ returned)
  | many1End _ last ih => subst returned; exact .many1End (ih rfl) last
  | many1Next _ apart _ ih₁ ih₂ => exact .many1Next (ih₁ rfl) apart (ih₂ returned)
  | actionSilent _ ih | actionEnd _ _ ih => exact .action (ih returned)
  | actionNext _ ih => cases returned; exact .action (ih rfl)
  | effectSilent _ ih | effectEnd _ _ ih => exact .effect (ih returned)
  | effectStop => cases returned
  | effectNext _ _ ih => cases returned; exact .effect (ih rfl)
  | @close _ _ _ s _ r _ ih =>
    rcases r with ⟨_ | next, s₁⟩ | ⟨stop, s₁⟩ <;> cases returned <;> exact ih rfl

/-- The rule without its actions and effects. -/
def Rule.erase : Rule α → Rule α
  | empty => empty
  | nothing => nothing
  | literal bytes => literal bytes
  | set s => set s
  | endOfInput => endOfInput
  | skipTo terminators => skipTo terminators
  | seq first second => seq first.erase second.erase
  | choice left right => choice left.erase right.erase
  | difference keep excluded => difference keep.erase excluded.erase
  | optional rule => optional rule.erase
  | many rule => many rule.erase
  | many1 rule => many1 rule.erase
  | action rule _ => rule.erase
  | effect rule _ => rule.erase

theorem Rule.leaf?_erase {input : Bytes} {rule : Rule α} {pos : Nat} {m : Option Nat}
    (found : rule.leaf? input pos = some m) : rule.erase.leaf? input pos = some m := by
  cases rule <;> first | exact found | simp [leaf?] at found

section Stages

variable {subject : Subject σ} {rule : Rule α} {silent : Bool} {pos : Nat} {m : Option Nat}
  {s s₁ : Matching σ α} {t : List (Performance σ)}

theorem Evaluates.attempt_of_body (body : Evaluates subject .body rule silent pos s t (.ok m s₁)) :
    ∃ s', Evaluates subject .attempt rule silent pos s t (.ok m s') := by
  cases m <;> exact ⟨_, .close body⟩

theorem Evaluates.body_of_attempt
    (whole : Evaluates subject .attempt rule silent pos s t (.ok m s₁)) :
    ∃ s', Evaluates subject .body rule silent pos s t (.ok m s') := by
  generalize returned : EStateM.Result.ok m s₁ = r at whole
  cases whole with
  | @close _ _ _ _ _ r body =>
    rcases r with ⟨_ | next, s'⟩ | ⟨stop, s'⟩ <;> cases returned <;> exact ⟨s', body⟩

end Stages

/-- Without its notes a rule is matched in any state, with nothing performed. -/
theorem Recognizes.evaluates_erase {subject : Subject σ} {rule : Rule α} {pos : Nat}
    {m : Option Nat} (h : Recognizes subject.input rule pos m) (silent : Bool)
    (s : Matching σ α) :
    ∃ s', Evaluates subject .attempt rule.erase silent pos s [] (.ok m s') := by
  induction h generalizing silent s with
  | leaf found => exact Evaluates.attempt_of_body (.leaf (Rule.leaf?_erase found))
  | seqFail _ ih =>
    obtain ⟨s₁, first⟩ := ih silent s
    exact Evaluates.attempt_of_body (.seqEnd first rfl)
  | seq _ _ ih₁ ih₂ =>
    obtain ⟨s₁, first⟩ := ih₁ silent s
    obtain ⟨s₂, second⟩ := ih₂ silent s₁
    exact Evaluates.attempt_of_body (.seqNext first second)
  | choiceLeft _ ih =>
    obtain ⟨s₁, left⟩ := ih silent s
    exact Evaluates.attempt_of_body (.choiceEnd left nofun)
  | choiceRight _ _ ih₁ ih₂ =>
    obtain ⟨s₁, left⟩ := ih₁ silent s
    obtain ⟨s₂, right⟩ := ih₂ silent s₁
    exact Evaluates.attempt_of_body (.choiceNext left right)
  | differenceFail _ ih =>
    obtain ⟨s₁, keep⟩ := ih silent s
    exact Evaluates.attempt_of_body (.differenceEnd keep rfl)
  | difference _ _ ih₁ ih₂ =>
    obtain ⟨s₁, keep⟩ := ih₁ silent s
    obtain ⟨s₂, excluded⟩ := ih₂ true s₁
    exact Evaluates.attempt_of_body (.differenceNext keep excluded)
  | optional _ ih =>
    obtain ⟨s₁, part⟩ := ih silent s
    exact Evaluates.attempt_of_body (.optionalNext part)
  | manyEnd _ last ih =>
    obtain ⟨s₁, part⟩ := ih silent s
    exact Evaluates.attempt_of_body (.manyEnd part last)
  | manyNext _ apart _ ih₁ ih₂ =>
    obtain ⟨s₁, part⟩ := ih₁ silent s
    obtain ⟨s₂, rest⟩ := ih₂ silent s₁
    obtain ⟨s₃, rest⟩ := rest.body_of_attempt
    exact Evaluates.attempt_of_body (.manyNext part apart rest)
  | many1End _ last ih =>
    obtain ⟨s₁, part⟩ := ih silent s
    exact Evaluates.attempt_of_body (.many1End part last)
  | many1Next _ apart _ ih₁ ih₂ =>
    obtain ⟨s₁, part⟩ := ih₁ silent s
    obtain ⟨s₂, rest⟩ := ih₂ silent s₁
    obtain ⟨s₃, rest⟩ := rest.body_of_attempt
    exact Evaluates.attempt_of_body (.many1Next part apart rest)
  | action _ ih | effect _ ih => exact ih silent s

/-- A subject for an input by itself, with a sink that takes everything. -/
def Subject.ofInput (input : Bytes) : Subject Unit :=
  ⟨input.toArray, input.length, ⟨.ofSource #[], 0, fun _ _ => ((), .keep)⟩⟩

@[simp] theorem Subject.input_ofInput (input : Bytes) : (ofInput input).input = input := by
  simp [Subject.input, ofInput, inputUpTo]

theorem Recognizes.advances {input : Bytes} {rule : Rule α} {pos next : Nat}
    (h : Recognizes input rule pos (some next)) (inside : pos ≤ input.length) :
    pos ≤ next ∧ next ≤ input.length := by
  rw [← Subject.input_ofInput input] at h inside ⊢
  obtain ⟨s', plain⟩ := h.evaluates_erase false { diagnostics := { world := () } }
  exact plain.advances inside rfl

theorem Recognizes.total (input : Bytes) (rule : Rule α) (pos : Nat)
    (inside : pos ≤ input.length) : ∃ m, Recognizes input rule pos m := by
  have repeated {a : Rule α} (part : ∀ pos, pos ≤ input.length → ∃ m, Recognizes input a pos m)
      (pos : Nat) (inside : pos ≤ input.length) : ∃ m, Recognizes input (.many a) pos m := by
    induction left : input.length - pos using Nat.strongRecOn generalizing pos with
    | ind left ih =>
      obtain ⟨m, once⟩ := part pos inside
      rcases m with _ | next
      · exact ⟨_, .manyEnd once (.inl rfl)⟩
      · by_cases same : next = pos
        · exact ⟨_, .manyEnd once (.inr (congrArg some same))⟩
        · have moved := once.advances inside
          obtain ⟨m, rest⟩ := ih (input.length - next) (by omega) next moved.2 rfl
          exact ⟨m, .manyNext once same rest⟩
  induction rule generalizing pos with
  | seq a b iha ihb =>
    obtain ⟨_ | next, first⟩ := iha pos inside
    · exact ⟨none, .seqFail first⟩
    · obtain ⟨m, second⟩ := ihb next (first.advances inside).2
      exact ⟨m, .seq first second⟩
  | choice a b iha ihb =>
    obtain ⟨_ | next, left⟩ := iha pos inside
    · obtain ⟨m, right⟩ := ihb pos inside
      exact ⟨m, .choiceRight left right⟩
    · exact ⟨some next, .choiceLeft left⟩
  | difference a b iha ihb =>
    obtain ⟨_ | next, keep⟩ := iha pos inside
    · exact ⟨none, .differenceFail keep⟩
    · obtain ⟨m, excluded⟩ := ihb pos inside
      exact ⟨_, .difference keep excluded⟩
  | optional a ih =>
    obtain ⟨m, part⟩ := ih pos inside
    exact ⟨_, .optional part⟩
  | many a ih => exact repeated ih pos inside
  | many1 a ih =>
    obtain ⟨_ | next, once⟩ := ih pos inside
    · exact ⟨none, .many1End once (.inl rfl)⟩
    · by_cases same : next = pos
      · exact ⟨_, .many1End once (.inr (congrArg some same))⟩
      · obtain ⟨m, rest⟩ := repeated ih next (once.advances inside).2
        exact ⟨m, .many1Next once same rest⟩
  | action a act ih =>
    obtain ⟨m, part⟩ := ih pos inside
    exact ⟨m, .action part⟩
  | effect a e ih =>
    obtain ⟨m, part⟩ := ih pos inside
    exact ⟨m, .effect part⟩
  | empty | nothing | literal | set | endOfInput | skipTo => exact ⟨_, .leaf rfl⟩

/-- Matching ends in every state, and where it returns the position is the one that the rule
recognises, inside the range, which is also where the rule without its notes matches in any other
state. -/
theorem run_recognizes (source : Source) (stop : Nat) (monitor : Monitor σ) (rule : Rule α)
    (silent : Bool) (pos : Nat) (s : Matching σ α) (inside : pos ≤ min stop source.size) :
    let subject := Subject.upTo source stop monitor
    (∃ t, Evaluates subject .attempt rule silent pos s t (rule.run subject silent pos s)) ∧
    (∃! m, Recognizes subject.input rule pos m) ∧
    ∀ m s', rule.run subject silent pos s = .ok m s' →
      Recognizes subject.input rule pos m ∧
      (∀ next, m = some next → pos ≤ next ∧ next ≤ min stop source.size) ∧
      ∀ silent s₁, ∃ s₂, rule.erase.run subject silent pos s₁ = .ok m s₂ := by
  intro subject
  have bounded : subject.Bounded := Subject.upTo_bounded source stop monitor
  have within : pos ≤ subject.input.length := bounded.length_input ▸ inside
  obtain ⟨t, evaluation⟩ := rule.evaluates bounded silent pos s inside
  obtain ⟨m, recognized⟩ := Recognizes.total subject.input rule pos within
  refine ⟨⟨t, evaluation⟩, ⟨m, recognized, fun _ other => other.unique recognized⟩, ?_⟩
  intro m s' returned
  rw [returned] at evaluation
  have recognized := evaluation.recognizes
  refine ⟨recognized, ?_, ?_⟩
  · rintro next rfl
    have moved := recognized.advances within
    rw [bounded.length_input] at moved
    exact moved
  · intro silent s₁
    obtain ⟨s₂, plain⟩ := recognized.evaluates_erase silent s₁
    exact ⟨s₂, plain.verdict_eq bounded inside⟩

/-- The left side leaves a message behind and the right side matches all of the range. -/
theorem run_recognizes_choice :
    let rule : Rule Nat := (Rule.literal [0x61]).push (.minor "unfinished") ++ .literal [0x63] |||
      (Rule.literal [0x61, 0x62]).action 7
    let subject := Subject.upTo #[0x61, 0x62, 0x63] 2 (Subject.ofInput []).monitor
    let s : Matching Unit Nat := { diagnostics := { world := () } }
    0 ≤ min 2 (#[0x61, 0x62, 0x63] : Source).size ∧
    (∃ s', rule.run subject false 0 s = .ok (some 2) s') ∧
    Recognizes subject.input rule 0 (some 2) := by
  intro rule subject s
  have returned : ∃ s', rule.run subject false 0 s = .ok (some 2) s' := ⟨_, rfl⟩
  obtain ⟨s', run⟩ := returned
  have recognized := run_recognizes #[0x61, 0x62, 0x63] 2 (Subject.ofInput []).monitor rule false 0
    s (by decide)
  exact ⟨by decide, ⟨s', run⟩, (recognized.2.2 _ _ run).1⟩

end Backtrack
