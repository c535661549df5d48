import Backtrack.Proofs.Evaluation

/-! The matcher evaluates. The equations say what one step of the matcher does at each kind of rule.
From them `Rule.evaluates` shows that every run is an evaluation, so that the bound in `iterate`
cuts nothing off, and `Evaluates.verdict_eq` that the matcher follows no other one. -/
namespace Backtrack

variable {σ α β : Type}

section Leaves

variable (subject : Subject σ) (pos : Nat)

theorem Subject.at?_eq : subject.at? pos = subject.input[pos]? := by
  unfold Subject.at? Subject.input inputUpTo
  split
  next inside => simp [inside]
  next outside => simp; omega

theorem Subject.at?_of_lt {pos : Nat} (inside : pos < subject.stop) :
    subject.at? pos = subject.source[pos]? := if_pos inside

theorem Subject.holds_iff (bytes : Bytes) :
    subject.holds bytes pos = true ↔ bytes <+: subject.input.drop pos := by
  induction bytes generalizing pos with
  | nil => simp [holds]
  | cons b bytes ih =>
    simp only [holds, at?_eq, Bool.and_eq_true, beq_iff_eq, ih]
    constructor
    · rintro ⟨here, rest⟩
      obtain ⟨inside, rfl⟩ := List.getElem?_eq_some_iff.mp here
      rw [List.drop_eq_getElem_cons inside]
      exact List.cons_prefix_cons.mpr ⟨rfl, rest⟩
    · intro found
      have inside : pos < subject.input.length := by
        have := found.length_le
        simp only [List.length_cons, List.length_drop] at this
        omega
      rw [List.drop_eq_getElem_cons inside, List.cons_prefix_cons] at found
      exact ⟨by rw [List.getElem?_eq_getElem inside, found.1], found.2⟩

theorem Subject.after?_eq (terminators : CharSet) :
    subject.after? terminators pos =
      ((subject.input.drop pos).findIdx? terminators.contains).map (pos + · + 1) := by
  fun_induction subject.after? terminators pos with
  | case1 pos inside found =>
    rw [← at?_of_lt subject inside, at?_eq] at found
    obtain ⟨b, here, member⟩ := (Option.any_eq_true _ _).mp found
    obtain ⟨bound, rfl⟩ := List.getElem?_eq_some_iff.mp here
    rw [List.drop_eq_getElem_cons bound, List.findIdx?_cons, member]
    rfl
  | case2 pos inside missed ih =>
    rw [← at?_of_lt subject inside, at?_eq] at missed
    rw [ih]
    by_cases bound : pos < subject.input.length
    · have other : terminators.contains subject.input[pos] = false := by
        simpa [List.getElem?_eq_getElem bound] using missed
      rw [List.drop_eq_getElem_cons bound, List.findIdx?_cons, other]
      cases (subject.input.drop (pos + 1)).findIdx? terminators.contains with
      | none => rfl
      | some offset => simp; omega
    · rw [List.drop_eq_nil_of_le (by omega), List.drop_eq_nil_of_le (by omega)]
      rfl
  | case3 pos outside =>
    have bound : subject.input.length ≤ pos := by
      simp [Subject.input, inputUpTo]
      omega
    rw [List.drop_eq_nil_of_le bound]
    rfl

end Leaves

theorem Rule.step_leaf {subject : Subject σ} (bounded : subject.Bounded) {rule : Rule α}
    {pos : Nat} {m : Option Nat} (h : rule.leaf? subject.input pos = some m) (silent : Bool)
    (s : Matching σ α) : rule.step subject silent pos s = .ok m s := by
  cases rule <;> simp only [leaf?, Option.some.injEq, reduceCtorEq] at h <;> subst h
  case empty => rfl
  case nothing => rfl
  case literal bytes =>
    simp only [step, ← Subject.holds_iff]
    rfl
  case set =>
    simp only [step, ← Subject.at?_eq]
    rfl
  case endOfInput =>
    rw [bounded.length_input]
    rfl
  case skipTo =>
    simp only [step, ← Subject.after?_eq]
    rfl

theorem bind_apply {ε τ γ : Type} (x : EStateM ε τ β) (f : β → EStateM ε τ γ) (s : τ) :
    (x >>= f) s = match x s with
      | .ok result s₁ => f result s₁
      | .error stop s₁ => .error stop s₁ := by
  change EStateM.bind x f s = _
  unfold EStateM.bind
  cases x s <;> rfl

theorem pure_apply {ε τ : Type} (result : β) (s : τ) :
    (pure result : EStateM ε τ β) s = .ok result s := rfl

section Steps

variable (subject : Subject σ) (a b : Rule α) (silent : Bool) (pos : Nat) (s : Matching σ α)

theorem Rule.run_eq : a.run subject silent pos s = s.close pos (a.step subject silent pos s) := by
  unfold Rule.run Matching.attempt
  rcases a.step subject silent pos s with ⟨_ | next, s₁⟩ | ⟨stop, s₁⟩ <;> rfl

theorem Rule.step_seq : (seq a b).step subject silent pos s =
    match a.run subject silent pos s with
    | .ok (some next) s₁ => b.run subject silent next s₁
    | r => r := by
  change (a.run subject silent pos >>= _) s = _
  rw [bind_apply]
  rcases a.run subject silent pos s with ⟨_ | next, s₁⟩ | ⟨stop, s₁⟩ <;> rfl

theorem Rule.step_choice : (choice a b).step subject silent pos s =
    match a.run subject silent pos s with
    | .ok none s₁ => b.run subject silent pos s₁
    | r => r := by
  change (a.run subject silent pos >>= _) s = _
  rw [bind_apply]
  rcases a.run subject silent pos s with ⟨_ | next, s₁⟩ | ⟨stop, s₁⟩ <;> rfl

theorem Rule.step_difference : (difference a b).step subject silent pos s =
    match a.run subject silent pos s with
    | .ok (some next) s₁ =>
      match b.run subject true pos s₁ with
      | .ok m s₂ => .ok (if m.any (next ≤ ·) then none else some next) s₂
      | .error stop s₂ => .error stop s₂
    | r => r := by
  change (a.run subject silent pos >>= _) s = _
  rw [bind_apply]
  rcases a.run subject silent pos s with ⟨_ | next, s₁⟩ | ⟨stop, s₁⟩
  · rfl
  · change (b.run subject true pos >>= _) s₁ = _
    rw [bind_apply]
    dsimp only
    rcases b.run subject true pos s₁ with ⟨_ | other, s₂⟩ | ⟨stop, s₂⟩
    · rfl
    · simp [pure_apply]
    · rfl
  · rfl

theorem Rule.step_optional : (optional a).step subject silent pos s =
    match a.run subject silent pos s with
    | .ok m s₁ => .ok (some (m.getD pos)) s₁
    | .error stop s₁ => .error stop s₁ := by
  change (a.run subject silent pos >>= _) s = _
  rw [bind_apply]
  rcases a.run subject silent pos s with ⟨m, s₁⟩ | ⟨stop, s₁⟩ <;> rfl

theorem Rule.step_many : (many a).step subject silent pos s =
    match Matching.iterate (a.run subject silent) subject.stop pos s with
    | .ok last s₁ => .ok (some last) s₁
    | .error stop s₁ => .error stop s₁ := by
  change (Matching.iterate (a.run subject silent) subject.stop pos >>= _) s = _
  rw [bind_apply]
  cases Matching.iterate (a.run subject silent) subject.stop pos s <;> rfl

/-- The bound of `iterate` plays no part where every match moves on inside it. -/
theorem Rule.step_many_next : (many a).step subject silent pos s =
    match a.run subject silent pos s with
    | .ok (some next) s₁ =>
      if pos < next ∧ next ≤ subject.stop then (many a).step subject silent next s₁
      else .ok (some pos) s₁
    | .ok none s₁ => .ok (some pos) s₁
    | .error stop s₁ => .error stop s₁ := by
  rw [step_many, Matching.iterate]
  rcases a.run subject silent pos s with ⟨_ | next, s₁⟩ | ⟨stop, s₁⟩
  · rfl
  · by_cases onward : pos < next ∧ next ≤ subject.stop
    · simp only [if_pos onward, step_many]
    · simp only [if_neg onward]
  · rfl

theorem Rule.step_many1 : (many1 a).step subject silent pos s =
    match a.run subject silent pos s with
    | .ok (some next) s₁ =>
      if next = pos then .ok (some pos) s₁ else (many a).step subject silent next s₁
    | r => r := by
  change (a.run subject silent pos >>= _) s = _
  rw [bind_apply]
  rcases a.run subject silent pos s with ⟨_ | next, s₁⟩ | ⟨stop, s₁⟩
  · rfl
  · by_cases same : next = pos
    · simp only [if_pos same]
      rfl
    · simp only [if_neg same]
      rfl
  · rfl

theorem Rule.step_action (act : α) : (action a act).step subject silent pos s =
    if silent then a.run subject true pos s
    else match a.run subject false pos ⟨s.events.push .placeholder, s.diagnostics⟩ with
      | .ok (some next) s₁ => .ok (some next) (s₁.fill s.events.size act pos next)
      | r => r := by
  cases silent with
  | true => rfl
  | false =>
    change Matching.record (a.run subject false pos) act pos s = _
    unfold Matching.record
    dsimp only
    rcases a.run subject false pos ⟨s.events.push .placeholder, s.diagnostics⟩ with
      ⟨_ | next, s₁⟩ | ⟨stop, s₁⟩ <;> rfl

theorem Matching.perform_eq (e : Effect) (start stop : Nat) :
    perform subject e start stop s =
      match (Performance.mk e start stop s.diagnostics).outcome subject with
      | .ok () d => .ok () ⟨s.events, d⟩
      | .error stop d => .error stop ⟨s.events, d⟩ := by
  unfold perform Performance.outcome
  cases Span.between subject.source start stop with
  | error => rfl
  | ok span =>
    simp only [onDiagnostics]
    cases Diagnostics.apply subject.monitor e span s.diagnostics <;> rfl

theorem Rule.step_effect (e : Effect) : (effect a e).step subject silent pos s =
    if silent then a.run subject true pos s
    else match a.run subject false pos s with
      | .ok (some next) s₁ =>
        match (Performance.mk e pos next s₁.diagnostics).outcome subject with
        | .ok () d => .ok (some next) ⟨s₁.events, d⟩
        | .error stop d => .error stop ⟨s₁.events, d⟩
      | r => r := by
  cases silent with
  | true => rfl
  | false =>
    change (a.run subject false pos >>= _) s = _
    rw [bind_apply]
    rcases a.run subject false pos s with ⟨_ | next, s₁⟩ | ⟨stop, s₁⟩
    · rfl
    · change (Matching.perform subject e pos next >>= _) s₁ = _
      rw [bind_apply, Matching.perform_eq]
      dsimp only
      cases (Performance.mk e pos next s₁.diagnostics).outcome subject <;> rfl
    · rfl

end Steps

section Adequacy

variable {subject : Subject σ}

/-- A repetition evaluates as the matcher runs it, given that its rule does. -/
theorem Rule.many_evaluates (bounded : subject.Bounded) {a : Rule α} {silent : Bool}
    (part : ∀ pos s, pos ≤ subject.stop →
      ∃ t, Evaluates subject .attempt a silent pos s t (a.run subject silent pos s))
    (pos : Nat) (s : Matching σ α) (inside : pos ≤ subject.stop) :
    ∃ t, Evaluates subject .body (many a) silent pos s t ((many a).step subject silent pos s) := by
  obtain ⟨t, once⟩ := part pos s inside
  rw [step_many_next]
  rcases run : a.run subject silent pos s with ⟨_ | next, s₁⟩ | ⟨stop, s₁⟩ <;> rw [run] at once
  · exact ⟨t, .manyEnd once (.inl rfl)⟩
  · have moved := once.onward bounded inside
    by_cases same : next = pos
    · subst same
      simp only [Nat.lt_irrefl, false_and, if_false]
      exact ⟨t, .manyEnd once (.inr rfl)⟩
    · have onward : pos < next ∧ next ≤ subject.stop := by omega
      obtain ⟨u, rest⟩ := many_evaluates bounded part next s₁ moved.2
      simp only [if_pos onward]
      exact ⟨t ++ u, .manyNext once same rest⟩
  · exact ⟨t, .manyStop once⟩
termination_by subject.stop - pos

theorem Rule.evaluates_of_body {rule : Rule α} {silent : Bool} {pos : Nat} {s : Matching σ α}
    (body : ∃ t, Evaluates subject .body rule silent pos s t (rule.step subject silent pos s)) :
    ∃ t, Evaluates subject .attempt rule silent pos s t (rule.run subject silent pos s) := by
  obtain ⟨t, body⟩ := body
  exact ⟨t, rule.run_eq subject silent pos s ▸ .close body⟩

/-- Every run of the matcher is an evaluation: matching ends, without a bound on repetition. -/
theorem Rule.evaluates (bounded : subject.Bounded) (rule : Rule α) (silent : Bool) (pos : Nat)
    (s : Matching σ α) (inside : pos ≤ subject.stop) :
    ∃ t, Evaluates subject .attempt rule silent pos s t (rule.run subject silent pos s) := by
  induction rule generalizing silent pos s <;> apply evaluates_of_body
  case seq a b iha ihb =>
    obtain ⟨t, first⟩ := iha silent pos s inside
    rw [step_seq]
    rcases run : a.run subject silent pos s with ⟨_ | next, s₁⟩ | ⟨stop, s₁⟩ <;> rw [run] at first
    · exact ⟨t, .seqEnd first rfl⟩
    · obtain ⟨u, second⟩ := ihb silent next s₁ (first.onward bounded inside).2
      exact ⟨t ++ u, .seqNext first second⟩
    · exact ⟨t, .seqEnd first rfl⟩
  case choice a b iha ihb =>
    obtain ⟨t, left⟩ := iha silent pos s inside
    rw [step_choice]
    rcases run : a.run subject silent pos s with ⟨_ | next, s₁⟩ | ⟨stop, s₁⟩ <;> rw [run] at left
    · obtain ⟨u, right⟩ := ihb silent pos s₁ inside
      exact ⟨t ++ u, .choiceNext left right⟩
    · exact ⟨t, .choiceEnd left nofun⟩
    · exact ⟨t, .choiceEnd left nofun⟩
  case difference a b iha ihb =>
    obtain ⟨t, keep⟩ := iha silent pos s inside
    rw [step_difference]
    rcases run : a.run subject silent pos s with ⟨_ | next, s₁⟩ | ⟨stop, s₁⟩ <;> rw [run] at keep
    · exact ⟨t, .differenceEnd keep rfl⟩
    · obtain ⟨u, excluded⟩ := ihb true pos s₁ inside
      dsimp only
      rcases look : b.run subject true pos s₁ with ⟨m, s₂⟩ | ⟨stop, s₂⟩ <;> rw [look] at excluded
      · exact ⟨t ++ u, .differenceNext keep excluded⟩
      · exact ⟨t ++ u, .differenceStop keep excluded⟩
    · exact ⟨t, .differenceEnd keep rfl⟩
  case optional a ih =>
    obtain ⟨t, once⟩ := ih silent pos s inside
    rw [step_optional]
    rcases run : a.run subject silent pos s with ⟨m, s₁⟩ | ⟨stop, s₁⟩ <;> rw [run] at once
    · exact ⟨t, .optionalNext once⟩
    · exact ⟨t, .optionalStop once⟩
  case many a ih => exact many_evaluates bounded (ih silent) pos s inside
  case many1 a ih =>
    obtain ⟨t, once⟩ := ih silent pos s inside
    rw [step_many1]
    rcases run : a.run subject silent pos s with ⟨_ | next, s₁⟩ | ⟨stop, s₁⟩ <;> rw [run] at once
    · exact ⟨t, .many1End once (.inl rfl)⟩
    · by_cases same : next = pos
      · subst same
        simp only [if_true]
        exact ⟨t, .many1End once (.inr rfl)⟩
      · have moved := once.onward bounded inside
        obtain ⟨u, rest⟩ := many_evaluates bounded (ih silent) next s₁ moved.2
        simp only [if_neg same]
        exact ⟨t ++ u, .many1Next once same rest⟩
    · exact ⟨t, .many1End once (.inl rfl)⟩
  case action a act ih =>
    rw [step_action]
    cases silent with
    | true => exact (ih true pos s inside).imp fun t part => .actionSilent part
    | false =>
      let reserved : Matching σ α := ⟨s.events.push .placeholder, s.diagnostics⟩
      obtain ⟨t, part⟩ := ih false pos reserved inside
      rcases run : a.run subject false pos reserved with ⟨_ | next, s₁⟩ | ⟨stop, s₁⟩ <;>
        rw [run] at part <;> simp only [Bool.false_eq_true, if_false]
      · exact ⟨t, .actionEnd part rfl⟩
      · exact ⟨t, .actionNext part⟩
      · exact ⟨t, .actionEnd part rfl⟩
  case effect a e ih =>
    rw [step_effect]
    cases silent with
    | true => exact (ih true pos s inside).imp fun t part => .effectSilent part
    | false =>
      obtain ⟨t, part⟩ := ih false pos s inside
      rcases run : a.run subject false pos s with ⟨_ | next, s₁⟩ | ⟨stop, s₁⟩ <;>
        rw [run] at part <;> simp only [Bool.false_eq_true, if_false]
      · exact ⟨t, .effectEnd part rfl⟩
      · rcases done : (Performance.mk e pos next s₁.diagnostics).outcome subject with
          ⟨_, d⟩ | ⟨stop, d⟩
        · exact ⟨_, .effectNext part done⟩
        · exact ⟨_, .effectStop part done⟩
      · exact ⟨t, .effectEnd part rfl⟩
  all_goals
    rw [step_leaf bounded rfl]
    exact ⟨[], .leaf rfl⟩

/-- The matcher follows every evaluation, so a rule has one verdict in each state. -/
theorem Evaluates.verdict_eq (bounded : subject.Bounded) {stage : Stage} {rule : Rule α}
    {silent : Bool} {pos : Nat} {s : Matching σ α} {t : List (Performance σ)} {r : Verdict σ α}
    (h : Evaluates subject stage rule silent pos s t r) (inside : pos ≤ subject.stop) :
    stage.verdict subject rule silent pos s = r := by
  induction h with
  | leaf found => exact Rule.step_leaf bounded found ..
  | @seqEnd _ _ _ _ _ _ r _ ends ih =>
    simp only [Stage.verdict, Rule.step_seq] at ih ⊢
    rw [ih inside]
    rcases r with ⟨_ | next, s₁⟩ | ⟨stop, s₁⟩ <;> first | rfl | contradiction
  | seqNext first _ ih₁ ih₂ =>
    simp only [Stage.verdict, Rule.step_seq] at ih₁ ih₂ ⊢
    rw [ih₁ inside]
    exact ih₂ (first.onward bounded inside).2
  | @choiceEnd _ _ _ _ _ _ r _ ends ih =>
    simp only [Stage.verdict, Rule.step_choice] at ih ⊢
    rw [ih inside]
    rcases r with ⟨_ | next, s₁⟩ | ⟨stop, s₁⟩
    · exact absurd rfl (ends s₁)
    · rfl
    · rfl
  | choiceNext _ _ ih₁ ih₂ =>
    simp only [Stage.verdict, Rule.step_choice] at ih₁ ih₂ ⊢
    rw [ih₁ inside]
    exact ih₂ inside
  | @differenceEnd _ _ _ _ _ _ r _ ends ih =>
    simp only [Stage.verdict, Rule.step_difference] at ih ⊢
    rw [ih inside]
    rcases r with ⟨_ | next, s₁⟩ | ⟨stop, s₁⟩ <;> first | rfl | contradiction
  | differenceStop _ _ ih₁ ih₂ =>
    simp only [Stage.verdict, Rule.step_difference] at ih₁ ih₂ ⊢
    simp only [ih₁ inside, ih₂ inside]
  | differenceNext _ _ ih₁ ih₂ =>
    simp only [Stage.verdict, Rule.step_difference] at ih₁ ih₂ ⊢
    simp only [ih₁ inside, ih₂ inside]
  | optionalStop _ ih =>
    simp only [Stage.verdict, Rule.step_optional] at ih ⊢
    rw [ih inside]
  | optionalNext _ ih =>
    simp only [Stage.verdict, Rule.step_optional] at ih ⊢
    rw [ih inside]
  | manyStop _ ih =>
    simp only [Stage.verdict] at ih ⊢
    rw [Rule.step_many_next, ih inside]
  | manyEnd _ last ih =>
    simp only [Stage.verdict] at ih ⊢
    rw [Rule.step_many_next, ih inside]
    rcases last with rfl | rfl <;> simp
  | @manyNext _ _ pos _ _ next _ _ _ first apart _ ih₁ ih₂ =>
    have moved := first.onward bounded inside
    have further : pos < next ∧ next ≤ subject.stop := by omega
    simp only [Stage.verdict] at ih₁ ih₂ ⊢
    rw [Rule.step_many_next, ih₁ inside]
    simp only [if_pos further]
    exact ih₂ moved.2
  | @many1End _ _ _ _ _ r _ last ih =>
    simp only [Stage.verdict, Rule.step_many1] at ih ⊢
    rw [ih inside]
    rcases r with ⟨_ | next, s₁⟩ | ⟨stop, s₁⟩ <;> simp_all [Verdict.position?]
  | many1Next first apart _ ih₁ ih₂ =>
    simp only [Stage.verdict, Rule.step_many1] at ih₁ ih₂ ⊢
    rw [ih₁ inside]
    simp only [if_neg apart]
    exact ih₂ (first.onward bounded inside).2
  | actionSilent _ ih =>
    simp only [Stage.verdict, Rule.step_action] at ih ⊢
    exact ih inside
  | @actionEnd _ _ _ _ _ r _ ends ih =>
    simp only [Stage.verdict, Rule.step_action] at ih ⊢
    rw [ih inside]
    rcases r with ⟨_ | next, s₁⟩ | ⟨stop, s₁⟩ <;> first | rfl | contradiction
  | actionNext _ ih =>
    simp only [Stage.verdict, Rule.step_action] at ih ⊢
    rw [ih inside]
    rfl
  | effectSilent _ ih =>
    simp only [Stage.verdict, Rule.step_effect] at ih ⊢
    exact ih inside
  | @effectEnd _ _ _ _ _ r _ ends ih =>
    simp only [Stage.verdict, Rule.step_effect] at ih ⊢
    rw [ih inside]
    rcases r with ⟨_ | next, s₁⟩ | ⟨stop, s₁⟩ <;> first | rfl | contradiction
  | effectStop _ done ih =>
    simp only [Stage.verdict, Rule.step_effect] at ih ⊢
    simp [ih inside, done]
  | effectNext _ done ih =>
    simp only [Stage.verdict, Rule.step_effect] at ih ⊢
    simp [ih inside, done]
  | close _ ih =>
    simp only [Stage.verdict, Rule.run_eq] at ih ⊢
    rw [ih inside]

end Adequacy

end Backtrack
