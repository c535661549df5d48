import Backtrack.Proofs.Failures
import Backtrack.Proofs.Written

/-! How much a rule has to say. A match and a failure of a rule each send a bounded number of
errors, unless an iteration of a loop may send some. Where a budget exceeds both, the parse is never
aborted: it ends in the verdict on its derivation, or without one in nothing parsed. -/
namespace Backtrack

variable {σ α : Type}

/-- How many errors a match sends at most, and how many a failure sends. -/
structure Volume where
  matched : Nat
  failed : Nat

namespace Volume

def bound (v : Volume) : Option Nat → Nat
  | some _ => v.matched
  | none => v.failed

def seq (v w : Volume) : Volume :=
  ⟨v.matched + w.matched, max v.failed (v.matched + w.failed)⟩

def choice (v w : Volume) : Volume :=
  ⟨max v.matched (v.failed + w.matched), v.failed + w.failed⟩

end Volume

namespace Rule

/-- The volume of the rule, if the iterations of its loops send nothing when they match. -/
def volume? : Rule α → Option Volume
  | seq a b => do return (← a.volume?).seq (← b.volume?)
  | choice a b => do return (← a.volume?).choice (← b.volume?)
  | difference a _ => do
    let v ← a.volume?
    return ⟨v.matched, max v.matched v.failed⟩
  | optional a => do
    let v ← a.volume?
    return ⟨max v.matched v.failed, 0⟩
  | many a => do
    let v ← a.volume?
    if v.matched = 0 then return ⟨v.failed, 0⟩ else none
  | many1 a => do
    let v ← a.volume?
    if v.matched = 0 then return ⟨v.failed, v.failed⟩ else none
  | action a _ => a.volume?
  | effect a e => do
    let v ← a.volume?
    return ⟨v.matched + if e.quiet then 0 else 1, v.failed⟩
  | _ => some ⟨0, 0⟩

variable {a b : Rule α} {v : Volume}

theorem volume?_seq (known : (seq a b).volume? = some v) :
    ∃ x y, a.volume? = some x ∧ b.volume? = some y ∧ v = x.seq y := by
  simp only [volume?, Option.bind_eq_bind, Option.bind_eq_some_iff, Option.pure_def,
    Option.some.injEq] at known
  obtain ⟨x, knownFirst, y, knownSecond, rfl⟩ := known
  exact ⟨x, y, knownFirst, knownSecond, rfl⟩

theorem volume?_choice (known : (choice a b).volume? = some v) :
    ∃ x y, a.volume? = some x ∧ b.volume? = some y ∧ v = x.choice y := by
  simp only [volume?, Option.bind_eq_bind, Option.bind_eq_some_iff, Option.pure_def,
    Option.some.injEq] at known
  obtain ⟨x, knownLeft, y, knownRight, rfl⟩ := known
  exact ⟨x, y, knownLeft, knownRight, rfl⟩

theorem volume?_difference (known : (difference a b).volume? = some v) :
    ∃ x, a.volume? = some x ∧ v = ⟨x.matched, max x.matched x.failed⟩ := by
  simp only [volume?, Option.bind_eq_bind, Option.bind_eq_some_iff, Option.pure_def,
    Option.some.injEq] at known
  obtain ⟨x, knownKeep, rfl⟩ := known
  exact ⟨x, knownKeep, rfl⟩

theorem volume?_optional (known : (optional a).volume? = some v) :
    ∃ x, a.volume? = some x ∧ v = ⟨max x.matched x.failed, 0⟩ := by
  simp only [volume?, Option.bind_eq_bind, Option.bind_eq_some_iff, Option.pure_def,
    Option.some.injEq] at known
  obtain ⟨x, knownPart, rfl⟩ := known
  exact ⟨x, knownPart, rfl⟩

theorem volume?_many (known : (many a).volume? = some v) :
    ∃ failed, a.volume? = some ⟨0, failed⟩ ∧ v = ⟨failed, 0⟩ := by
  simp only [volume?, Option.bind_eq_bind, Option.bind_eq_some_iff] at known
  obtain ⟨⟨matched, failed⟩, knownPart, known⟩ := known
  split at known
  next quiet =>
    cases known
    cases quiet
    exact ⟨failed, knownPart, rfl⟩
  next => cases known

theorem volume?_many1 (known : (many1 a).volume? = some v) :
    ∃ failed, a.volume? = some ⟨0, failed⟩ ∧ (many a).volume? = some ⟨failed, 0⟩ ∧
      v = ⟨failed, failed⟩ := by
  simp only [volume?, Option.bind_eq_bind, Option.bind_eq_some_iff] at known
  obtain ⟨⟨matched, failed⟩, knownPart, known⟩ := known
  split at known
  next quiet =>
    cases known
    cases quiet
    refine ⟨failed, knownPart, ?_, rfl⟩
    simp [volume?, knownPart]
  next => cases known

theorem volume?_effect {e : Effect} (known : (effect a e).volume? = some v) :
    ∃ x, a.volume? = some x ∧ v = ⟨x.matched + if e.quiet then 0 else 1, x.failed⟩ := by
  simp only [volume?, Option.bind_eq_bind, Option.bind_eq_some_iff, Option.pure_def,
    Option.some.injEq] at known
  obtain ⟨x, knownPart, rfl⟩ := known
  exact ⟨x, knownPart, rfl⟩

end Rule

section Volume

variable {subject : Subject σ} {stage : Stage} {rule : Rule α} {silent : Bool} {pos : Nat}
  {s s' : Matching σ α} {t : List (Performance σ)} {m : Option Nat} {v : Volume}

theorem Performance.errors_le (p : Performance σ) :
    p.errors subject ≤ if p.effect.quiet then 0 else 1 := by
  unfold errors
  split
  next quiet => simp [Performance.unsent quiet]
  next =>
    cases p.sent? subject with
    | none => exact Nat.zero_le _
    | some notice => exact Diagnostics.charge_le notice

/-- An evaluation that ends sends as many errors at most as the volume of its rule tells. -/
theorem Evaluates.volume (h : Evaluates subject stage rule silent pos s t (.ok m s'))
    (known : rule.volume? = some v) : errorsSent subject t ≤ v.bound m := by
  generalize returned : EStateM.Result.ok m s' = r at h
  induction h generalizing m s' v with
  | leaf => exact Nat.zero_le _
  | seqEnd _ ends ih =>
    subst returned
    obtain ⟨x, y, knownFirst, -, rfl⟩ := Rule.volume?_seq known
    obtain rfl : m = none := ends
    exact Nat.le_trans (ih knownFirst rfl) (Nat.le_max_left ..)
  | seqNext _ _ ih₁ ih₂ =>
    obtain ⟨x, y, knownFirst, knownSecond, rfl⟩ := Rule.volume?_seq known
    have first := ih₁ knownFirst rfl
    have second := ih₂ knownSecond returned
    rw [errorsSent_append]
    refine Nat.le_trans (Nat.add_le_add first second) ?_
    cases m with
    | none => exact Nat.le_max_right ..
    | some next => exact Nat.le_refl _
  | choiceEnd _ ends ih =>
    subst returned
    obtain ⟨x, y, knownLeft, -, rfl⟩ := Rule.volume?_choice known
    cases m with
    | none => exact absurd rfl (ends _)
    | some next => exact Nat.le_trans (ih knownLeft rfl) (Nat.le_max_left ..)
  | choiceNext _ _ ih₁ ih₂ =>
    obtain ⟨x, y, knownLeft, knownRight, rfl⟩ := Rule.volume?_choice known
    have left := ih₁ knownLeft rfl
    have right := ih₂ knownRight returned
    rw [errorsSent_append]
    refine Nat.le_trans (Nat.add_le_add left right) ?_
    cases m with
    | none => exact Nat.le_refl _
    | some next => exact Nat.le_max_right ..
  | differenceEnd _ ends ih =>
    subst returned
    obtain ⟨x, knownKeep, rfl⟩ := Rule.volume?_difference known
    obtain rfl : m = none := ends
    exact Nat.le_trans (ih knownKeep rfl) (Nat.le_max_right ..)
  | differenceStop | optionalStop | manyStop | effectStop => cases returned
  | differenceNext _ excluded ih _ =>
    obtain ⟨x, knownKeep, rfl⟩ := Rule.volume?_difference known
    obtain ⟨rfl, -⟩ := excluded.silent_unchanged
    rw [List.append_nil]
    refine Nat.le_trans (ih knownKeep rfl) ?_
    cases m with
    | none => exact Nat.le_max_left ..
    | some next => exact Nat.le_refl _
  | @optionalNext _ _ _ _ _ m' _ _ ih =>
    obtain ⟨x, knownPart, rfl⟩ := Rule.volume?_optional known
    cases returned
    refine Nat.le_trans (ih knownPart rfl) ?_
    cases m' with
    | none => exact Nat.le_max_right ..
    | some next => exact Nat.le_max_left ..
  | manyEnd _ last ih =>
    obtain ⟨failed, knownPart, rfl⟩ := Rule.volume?_many known
    cases returned
    have once := ih knownPart rfl
    rcases last with rfl | rfl
    · exact once
    · exact Nat.le_trans once (Nat.zero_le _)
  | manyNext _ _ _ ih₁ ih₂ =>
    obtain ⟨failed, knownPart, rfl⟩ := Rule.volume?_many known
    have once := ih₁ knownPart rfl
    rw [errorsSent_append, Nat.le_zero.mp once, Nat.zero_add]
    exact ih₂ known returned
  | many1End _ last ih =>
    subst returned
    obtain ⟨failed, knownPart, -, rfl⟩ := Rule.volume?_many1 known
    refine Nat.le_trans (ih knownPart rfl) ?_
    cases m with
    | none => exact Nat.le_refl _
    | some next => exact Nat.zero_le _
  | many1Next _ _ rest ih₁ ih₂ =>
    obtain ⟨failed, knownPart, knownRest, rfl⟩ := Rule.volume?_many1 known
    have once := ih₁ knownPart rfl
    rw [errorsSent_append, Nat.le_zero.mp once, Nat.zero_add]
    refine Nat.le_trans (ih₂ knownRest returned) ?_
    cases m with
    | none => exact Nat.zero_le _
    | some next => exact Nat.le_refl _
  | actionSilent _ ih => exact ih known returned
  | actionEnd _ _ ih => exact ih known returned
  | actionNext _ ih =>
    cases returned
    exact ih known rfl
  | effectSilent _ ih =>
    obtain ⟨x, knownPart, rfl⟩ := Rule.volume?_effect known
    refine Nat.le_trans (ih knownPart returned) ?_
    cases m with
    | none => exact Nat.le_refl _
    | some next => exact Nat.le_add_right ..
  | effectEnd _ ends ih =>
    subst returned
    obtain ⟨x, knownPart, rfl⟩ := Rule.volume?_effect known
    obtain rfl : m = none := ends
    have few := ih knownPart rfl
    exact few
  | effectNext _ done ih =>
    obtain ⟨x, knownPart, rfl⟩ := Rule.volume?_effect known
    cases returned
    rw [errorsSent_append, errorsSent_cons, errorsSent_nil, Nat.add_zero]
    exact Nat.add_le_add (ih knownPart rfl) (Performance.errors_le _)
  | @close _ _ _ s _ r _ ih =>
    rcases r with ⟨_ | next, s₁⟩ | ⟨stop, s₁⟩ <;> cases returned <;> exact ih known rfl

/-- A budget above the volume of a balanced rule brings every match of it to an end. -/
theorem Rule.Balanced.affords (balanced : rule.Balanced) (bounded : subject.Bounded)
    (calm : subject.monitor.Calm) (inside : pos ≤ subject.stop)
    (clean : s.diagnostics.report.errors = 0) (known : rule.volume? = some v)
    (matched : v.matched < subject.monitor.budget) (failed : v.failed < subject.monitor.budget) :
    ∃ t m s', Evaluates subject .attempt rule false pos s t (.ok m s') ∧
      errorsSent subject t ≤ v.bound m := by
  obtain ⟨budget, t, m, s', evaluation⟩ := balanced.returns bounded calm inside clean
  have few := evaluation.volume known
  have charged : s'.diagnostics.report.errors = s.diagnostics.report.errors + _ :=
    evaluation.charged
  have below : v.bound m < subject.monitor.budget := by cases m <;> assumption
  have enough : s'.diagnostics.report.errors < subject.monitor.budget := by omega
  have afforded := evaluation.affordable enough
  rw [Subject.withBudget_self] at afforded
  exact ⟨t, m, s', afforded, afforded.volume known⟩

end Volume

namespace Driver

variable {rule : Rule α} {d : Driver} {source : Source} {start stop : Nat} {v : Volume}

/-- Under a budget above what the rule has to say, a parse judges the derivation of its range, and
finds nothing only if there is none. -/
theorem course_decided (balanced : rule.Balanced) (idle : d.busy = false)
    (accepted : refuse? source.size start stop = none) (known : rule.volume? = some v)
    (matched : v.matched < d.budget) (failed : v.failed + rule.residue + 1 < d.budget)
    (verdict : List (Tree α) → Bool) :
    ∃ course : Course α, course.Fits d rule source start stop verdict ∧
      ((∃ next forest, Derives source (min stop source.size) rule start next forest ∧
          course.forest? = some forest ∧
          course.outcome = .classify (verdict forest) (next == min stop source.size)) ∨
        course.forest? = none ∧ course.outcome = .notParsed ∧
          ∀ next forest, ¬ Derives source (min stop source.size) rule start next forest) := by
  have bounded := d.subject_bounded (scribe verdict) source stop
  have inside := start_inside accepted d (scribe verdict)
  have calm : (d.subject (scribe verdict) source stop).monitor.Calm :=
    monitor_calm (scribe_calm verdict) d source stop
  have budget : (d.subject (scribe verdict) source stop).monitor.budget = d.budget := rfl
  obtain ⟨t, m, s, evaluation, few⟩ := balanced.affords bounded calm inside
    (s := fresh α []) rfl known (by omega) (by omega)
  cases m with
  | some next =>
    obtain ⟨forest, derives, fits⟩ :=
      course_matched balanced idle accepted (evaluation.verdict_eq bounded inside)
    exact ⟨_, fits, .inl ⟨next, forest, derives, rfl, rfl⟩⟩
  | none =>
    have sent : errorsSent (d.subject (scribe verdict) source stop) t ≤ v.failed := few
    obtain ⟨driver, -, -, fits⟩ :=
      course_of_failure balanced idle accepted evaluation (by omega)
    exact ⟨_, fits, .inr ⟨rfl, rfl, fun next forest derives =>
      derives.not_fails evaluation.recognizes⟩⟩

end Driver

namespace Xml.Parser

variable (p : Parser) (construct : Construct) (source : Source) (world : σ)

/-- The log of a calm client over a source, under a budget above what the construct has to say. -/
theorem parse_decided (idle : p.driver.busy = false) {client : Client σ} (calm : client.Calm)
    (filled : source.toList ≠ []) {v : Volume} (known : construct.rule.volume? = some v)
    (matched : v.matched < p.driver.budget)
    (failed : v.failed + construct.rule.residue + 1 < p.driver.budget) :
    let run := p.parse construct source client.logged { world }
    (∃ next f, Derives source source.size construct.rule 0 next f ∧
        run.outcome = .ok (.classify (f.all isValid) (next == source.size)) ∧
        Delivered (f.flatMap construct.items) run.world.calls ∧
        (client.Accepting →
          run.world.calls.map (·.given) = (f.flatMap construct.items).flatMap Item.calls)) ∨
      (run.outcome = .ok .notParsed ∧ run.world.calls = [] ∧
        ∀ next f, ¬ Derives source source.size construct.rule 0 next f) := by
  intro run
  have accepted := Driver.refuse?_whole filled
  obtain ⟨course, fits, ended⟩ := Driver.course_decided (Shipped.construct construct).balanced idle
    accepted known matched failed (·.all isValid)
  obtain ⟨heard, part, last, logged, -, delivered, -, genuine⟩ :=
    p.parse_log construct source world calm fits
  have run_eq : run = _ := logged
  rw [Nat.min_self] at ended
  rw [run_eq]
  obtain ⟨next, f, derives, replayed, judged⟩ | ⟨replayed, judged, none⟩ := ended
  · rw [replayed, Option.getD_some] at delivered
    exact .inl ⟨next, f, derives, congrArg Except.ok judged, delivered, fun accepting =>
      delivered.all_given fun e member => (genuine e member).not_refused accepting⟩
  · rw [replayed] at delivered
    exact .inr ⟨congrArg Except.ok judged, Delivered.eq_nil delivered, none⟩

end Xml.Parser
end Backtrack
