import Backtrack.Proofs.Defects

/-! Budgets that suffice. A match performs so many effects at most, whatever the budget is, so there
is a budget under which it is not aborted. What it sends in all is then known, and under every
budget that is greater than the errors among it the match is the same. -/
namespace Backtrack

variable {σ α : Type}

def Monitor.withBudget (m : Monitor σ) (budget : Nat) : Monitor σ := { m with budget }

def Subject.withBudget (s : Subject σ) (budget : Nat) : Subject σ :=
  { s with monitor := s.monitor.withBudget budget }

theorem Subject.Bounded.withBudget {s : Subject σ} (bounded : s.Bounded) (budget : Nat) :
    (s.withBudget budget).Bounded := bounded

@[simp] theorem Subject.withBudget_self (s : Subject σ) (budget : Nat) :
    (s.withBudget budget).withBudget s.monitor.budget = s := rfl

namespace Diagnostics

variable {m : Monitor σ} {notice : Notice} {d d' : Diagnostics σ} {budget : Nat}

theorem charge_affordable (sent : charge m notice d = .ok () d')
    (affords : d'.report.errors < budget) :
    charge (m.withBudget budget) notice d = .ok () d' := by
  rw [charge_eq] at sent ⊢
  split at sent
  · cases sent
  · cases sent
    exact if_neg fun spent => Nat.not_le_of_lt affords spent.2

theorem send_affordable (sent : send m notice d = .ok () d') (affords : d'.report.errors < budget) :
    send (m.withBudget budget) notice d = .ok () d' := by
  have introduces : introduce (m.withBudget budget) notice d = introduce m notice d := rfl
  have delivers (d : Diagnostics σ) :
      deliver (m.withBudget budget) notice d = deliver m notice d := rfl
  simp only [send, bind_apply, introduces, delivers] at sent ⊢
  split at sent
  · split at sent
    · exact charge_affordable sent affords
    · cases sent
  · cases sent

theorem apply_affordable {e : Effect} {span : Span} (applied : apply m e span d = .ok () d')
    (affords : d'.report.errors < budget) :
    apply (m.withBudget budget) e span d = .ok () d' := by
  have refusal : refusal? (m.withBudget budget) e span d = refusal? m e span d := rfl
  have told : notice? (m.withBudget budget) e span d = notice? m e span d := rfl
  rw [apply_eq, refusal, told]
  rw [apply_eq] at applied
  cases refused : refusal? m e span d <;> rw [refused] at applied
  case some => cases applied
  case none =>
    cases sent : notice? m e span d <;> rw [sent] at applied
    case none => exact applied
    case some => exact send_affordable applied affords

/-- An error that uses up the budget is one more than those before it. -/
theorem send_spent (m : Monitor σ) (notice : Notice) (d : Diagnostics σ) :
    Ends (fun _ _ => True) (fun _ => m.budget ≤ d.report.errors + 1) (send m notice d) := by
  refine send_of_charge fun d' same => ?_
  rw [charge_eq, ← same]
  split
  next spent =>
    have counted : (d'.charged notice).report.errors = d'.report.errors + 1 := by
      simp [charged, spent.1]
    exact counted ▸ spent.2
  next => trivial

end Diagnostics

namespace Performance

variable {subject : Subject σ} {p : Performance σ}

theorem affordable {d : Diagnostics σ} {budget : Nat} (done : p.outcome subject = .ok () d)
    (affords : d.report.errors < budget) : p.outcome (subject.withBudget budget) = .ok () d := by
  have same : (subject.withBudget budget).source = subject.source := rfl
  unfold outcome at done ⊢
  rw [same]
  split at done
  · exact Diagnostics.apply_affordable done affords
  · cases done

theorem spent (p : Performance σ) :
    Ends (fun _ _ => True) (fun _ => subject.monitor.budget ≤ p.state.report.errors + 1)
      (p.outcome subject) := by
  refine p.outcome_cases subject (fun _ => trivial) (fun _ _ _ => trivial) ?_
  exact fun pending notice _ => Diagnostics.send_spent subject.monitor notice
    { p.state with pending }

end Performance

section Transfer

variable {subject : Subject σ} {stage : Stage} {rule : Rule α} {silent : Bool} {pos : Nat}
  {s s' : Matching σ α} {t : List (Performance σ)} {m : Option Nat}

/-- A match that returns is one under every budget that leaves its effects as they are. -/
theorem Evaluates.transfer {budget : Nat}
    (h : Evaluates subject stage rule silent pos s t (.ok m s'))
    (same : ∀ p ∈ t, ∀ d, p.outcome subject = .ok () d →
      p.outcome (subject.withBudget budget) = .ok () d) :
    Evaluates (subject.withBudget budget) stage rule silent pos s t (.ok m s') := by
  generalize returned : EStateM.Result.ok m s' = r at h
  induction h generalizing m s' with
  | leaf found => cases returned; exact .leaf found
  | seqEnd _ ends ih => subst returned; exact .seqEnd (ih same rfl) ends
  | seqNext _ _ ih₁ ih₂ =>
    obtain ⟨first, second⟩ := List.forall_mem_append.mp same
    exact .seqNext (ih₁ first rfl) (ih₂ second returned)
  | choiceEnd _ ends ih => subst returned; exact .choiceEnd (ih same rfl) ends
  | choiceNext _ _ ih₁ ih₂ =>
    obtain ⟨left, right⟩ := List.forall_mem_append.mp same
    exact .choiceNext (ih₁ left rfl) (ih₂ right returned)
  | differenceEnd _ ends ih => subst returned; exact .differenceEnd (ih same rfl) ends
  | differenceStop | optionalStop | manyStop | effectStop => cases returned
  | differenceNext _ _ ih₁ ih₂ =>
    obtain ⟨keep, excluded⟩ := List.forall_mem_append.mp same
    cases returned
    exact .differenceNext (ih₁ keep rfl) (ih₂ excluded rfl)
  | optionalNext _ ih => cases returned; exact .optionalNext (ih same rfl)
  | manyEnd _ last ih => cases returned; exact .manyEnd (ih same rfl) last
  | manyNext _ apart _ ih₁ ih₂ =>
    obtain ⟨first, rest⟩ := List.forall_mem_append.mp same
    exact .manyNext (ih₁ first rfl) apart (ih₂ rest returned)
  | many1End _ last ih => subst returned; exact .many1End (ih same rfl) last
  | many1Next _ apart _ ih₁ ih₂ =>
    obtain ⟨first, rest⟩ := List.forall_mem_append.mp same
    exact .many1Next (ih₁ first rfl) apart (ih₂ rest returned)
  | actionSilent _ ih => exact .actionSilent (ih same returned)
  | actionEnd _ ends ih => subst returned; exact .actionEnd (ih same rfl) ends
  | actionNext _ ih => cases returned; exact .actionNext (ih same rfl)
  | effectSilent _ ih => exact .effectSilent (ih same returned)
  | effectEnd _ ends ih => subst returned; exact .effectEnd (ih same rfl) ends
  | effectNext _ done ih =>
    obtain ⟨part, last⟩ := List.forall_mem_append.mp same
    cases returned
    exact .effectNext (ih part rfl) (last _ (List.mem_singleton_self _) _ done)
  | @close _ _ _ s _ r _ ih =>
    rcases r with ⟨_ | next, s₁⟩ | ⟨stop, s₁⟩ <;> cases returned <;> exact .close (ih same rfl)

/-- What a match sends is the same under every budget that it does not use up. -/
theorem Evaluates.affordable {budget : Nat}
    (h : Evaluates subject stage rule silent pos s t (.ok m s'))
    (affords : s'.diagnostics.report.errors < budget) :
    Evaluates (subject.withBudget budget) stage rule silent pos s t (.ok m s') := by
  refine h.transfer fun p member d done => Performance.affordable done ?_
  have trail : Trail subject s.diagnostics t s'.diagnostics := h.follows
  obtain ⟨u, v, after, -, -, done', rest⟩ := trail.split member
  rw [done] at done'
  cases done'
  have counted := rest.charged
  omega

end Transfer

/-- How many effects a match of the rule performs at most, when so many bytes are left. -/
def Rule.effort (room : Nat) : Rule α → Nat
  | seq a b | choice a b => a.effort room + b.effort room
  | difference a _ | optional a | action a _ => a.effort room
  | many a | many1 a => (room + 1) * a.effort room
  | effect a _ => a.effort room + 1
  | _ => 0

theorem Rule.effort_mono {room more : Nat} (le : room ≤ more) (rule : Rule α) :
    rule.effort room ≤ rule.effort more := by
  induction rule with
  | seq a b iha ihb | choice a b iha ihb => exact Nat.add_le_add iha ihb
  | difference a b iha _ => exact iha
  | optional a ih | action a _ ih => exact ih
  | many a ih | many1 a ih => exact Nat.mul_le_mul (Nat.succ_le_succ le) ih
  | effect a _ ih => exact Nat.succ_le_succ ih
  | empty | nothing | literal | set | endOfInput | skipTo => exact Nat.le_refl 0

section Effort

variable {subject : Subject σ} {stage : Stage} {rule : Rule α} {silent : Bool} {pos : Nat}
  {s : Matching σ α} {t : List (Performance σ)} {r : Verdict σ α}

theorem Evaluates.length_le (h : Evaluates subject stage rule silent pos s t r)
    (bounded : subject.Bounded) (inside : pos ≤ subject.stop) :
    t.length ≤ rule.effort (subject.stop - pos) := by
  have shrinks {a : Rule α} {pos next : Nat} (onward : pos ≤ next) :
      a.effort (subject.stop - next) ≤ a.effort (subject.stop - pos) :=
    a.effort_mono (by omega)
  have again {a : Rule α} {pos next : Nat} (onward : pos ≤ next ∧ next ≤ subject.stop)
      (apart : next ≠ pos) {first rest : Nat} (once : first ≤ a.effort (subject.stop - pos))
      (more : rest ≤ (subject.stop - next + 1) * a.effort (subject.stop - next)) :
      first + rest ≤ (subject.stop - pos + 1) * a.effort (subject.stop - pos) := by
    have fewer : subject.stop - next + 1 ≤ subject.stop - pos := by omega
    have less := Nat.mul_le_mul fewer (shrinks (a := a) onward.1)
    rw [Nat.add_one_mul]
    omega
  have atLeast (room : Nat) (a : Rule α) : a.effort room ≤ (room + 1) * a.effort room :=
    Nat.le_mul_of_pos_left _ (Nat.succ_pos _)
  induction h with
  | leaf => exact Nat.zero_le _
  | seqEnd _ _ ih | choiceEnd _ _ ih => exact Nat.le_trans (ih inside) (Nat.le_add_right ..)
  | seqNext first _ ih₁ ih₂ =>
    have onward := first.onward bounded inside
    rw [List.length_append]
    exact Nat.add_le_add (ih₁ inside) (Nat.le_trans (ih₂ onward.2) (shrinks onward.1))
  | choiceNext _ _ ih₁ ih₂ =>
    rw [List.length_append]
    exact Nat.add_le_add (ih₁ inside) (ih₂ inside)
  | differenceEnd _ _ ih | optionalStop _ ih | optionalNext _ ih | actionSilent _ ih
  | actionEnd _ _ ih | actionNext _ ih | close _ ih => exact ih inside
  | differenceStop _ excluded ih _ | differenceNext _ excluded ih _ =>
    obtain ⟨rfl, -⟩ := excluded.silent_unchanged
    rw [List.append_nil]
    exact ih inside
  | manyStop _ ih | manyEnd _ _ ih | many1End _ _ ih =>
    exact Nat.le_trans (ih inside) (atLeast _ _)
  | manyNext first apart _ ih₁ ih₂ | many1Next first apart _ ih₁ ih₂ =>
    have onward := first.onward bounded inside
    rw [List.length_append]
    exact again onward apart (ih₁ inside) (ih₂ onward.2)
  | effectSilent _ ih | effectEnd _ _ ih => exact Nat.le_succ_of_le (ih inside)
  | effectStop _ _ ih | effectNext _ _ ih =>
    rw [List.length_append]
    exact Nat.succ_le_succ (ih inside)

theorem errorsSent_le (subject : Subject σ) (t : List (Performance σ)) :
    errorsSent subject t ≤ t.length :=
  Nat.le_trans List.countP_le_length (List.length_filterMap_le ..)

/-- A match that is aborted has performed as many effects as the budget allows errors. -/
theorem Evaluates.budget_le {errors : Nat} {s' : Matching σ α}
    (h : Evaluates subject stage rule silent pos s t (.error (.aborted errors) s'))
    (clean : s.diagnostics.report.errors = 0) : subject.monitor.budget ≤ t.length := by
  obtain ⟨u, p, rfl, trail, stopped⟩ := h.follows
  have counted := trail.charged
  have few := errorsSent_le subject u
  have spent : Ends _ _ (p.outcome subject) := p.spent
  rw [stopped] at spent
  have least : subject.monitor.budget ≤ p.state.report.errors + 1 := spent
  simp only [List.length_append, List.length_singleton]
  omega

end Effort

section Quiet

variable {subject : Subject σ}

/-- What is sent where only errors wait is an error. -/
theorem Performance.sent_isError {p : Performance σ} {notice : Notice}
    (sent : p.sent? subject = some notice) (graded : p.state.pending.Graded)
    (effect : p.effect.graded = true) : notice.level.isError = true := by
  unfold sent? at sent
  split at sent
  next => cases sent
  cases kind : p.effect <;> rw [kind] at effect <;> simp only [kind, reduceCtorEq] at sent
  case pop =>
    obtain ⟨entry, top, rfl⟩ := Option.map_eq_some_iff.mp sent
    exact graded.stack entry (Array.mem_toList_iff.mpr (Array.mem_of_back? top))
  case popAbandoned =>
    obtain ⟨⟨entry, p'⟩, claimed, rfl⟩ := Option.map_eq_some_iff.mp sent
    exact (graded.claim? claimed).1
  case sendNow =>
    cases sent
    exact effect

theorem Performance.quiet {p : Performance σ} {d : Diagnostics σ}
    (done : p.outcome subject = .ok () d) (unsent : p.sent? subject = none) :
    d.world = p.state.world := by
  obtain ⟨-, _, _, rfl⟩ | ⟨notice, pending, sent, -⟩ := outcome_ok done
  · rfl
  · cases unsent.symm.trans sent

/-- Where every message is an error and no error is sent, nothing is told. -/
theorem Trail.quiet {d final : Diagnostics σ} {t : List (Performance σ)}
    (trail : Trail subject d t final) (initial : d.pending.Graded)
    (effects : ∀ p ∈ t, p.effect.graded = true) (silent : errorsSent subject t = 0) :
    final.world = d.world := by
  induction trail with
  | nil => rfl
  | settle _ ih => exact ih (initial.settle _) effects silent
  | rewind _ ih => exact ih (initial.abandonFrom _ _) effects silent
  | @perform p _ t _ done _ ih =>
    obtain ⟨first, rest⟩ := List.forall_mem_cons.mp effects
    rw [errorsSent_cons] at silent
    have unsent : p.sent? subject = none := by
      cases sent : p.sent? subject with
      | none => rfl
      | some notice =>
        have error := Performance.sent_isError sent initial first
        have charged : p.errors subject = 1 := by
          simp [Performance.errors, sent, Notice.charge, error]
        omega
    rw [ih (Performance.graded done initial first) rest (by omega)]
    exact Performance.quiet done unsent

end Quiet

/-- Under some budget every match of a balanced rule returns. -/
theorem Rule.Balanced.returns {subject : Subject σ} {rule : Rule α} (balanced : rule.Balanced)
    (bounded : subject.Bounded) (calm : subject.monitor.Calm) {pos : Nat}
    (inside : pos ≤ subject.stop) {s : Matching σ α} (clean : s.diagnostics.report.errors = 0) :
    ∃ budget t m s',
      Evaluates (subject.withBudget budget) .attempt rule false pos s t (.ok m s') := by
  let budget := rule.effort (subject.stop - pos) + 1
  obtain ⟨t, evaluation⟩ := rule.evaluates (bounded.withBudget budget) false pos s inside
  have calm' : (subject.withBudget budget).monitor.Calm := calm
  have faultless := balanced.faultless calm' bounded evaluation inside
  refine ⟨budget, t, ?_⟩
  generalize rule.run _ false pos s = r at evaluation faultless
  rcases r with ⟨m, s'⟩ | ⟨errors | fault, s'⟩
  · exact ⟨m, s', evaluation⟩
  · have spent := evaluation.budget_le clean
    have short := evaluation.length_le bounded inside
    exact absurd (Nat.le_trans spent short) (Nat.not_succ_le_self _)
  · cases faultless

/-- Where a derivation tells how many errors its match sends, and the budget allows for more, it is
what the matcher commits. -/
theorem Derives.affordable {subject : Subject σ} {rule : Rule α} {pos next : Nat}
    {forest : List (Tree α)} {blanks : CharSet} {isDefect : α → Bool} {errors : Nat}
    (derives : Derives subject.source subject.stop rule pos next forest)
    (balanced : rule.Balanced) (graded : rule.Graded)
    (counts : ∀ head after sent, (rule.outlook blanks isDefect).Matched head after sent
      (Tree.defects isDefect forest) → sent = errors) (bounded : subject.Bounded)
    (calm : subject.monitor.Calm) (inside : pos ≤ subject.stop)
    (affords : errors < subject.monitor.budget) (world : σ) :
    ∃ t s', Evaluates subject .attempt rule false pos (Driver.fresh α world) t
        (.ok (some next) s') ∧
      s'.diagnostics.report.errors = errors ∧ (errors = 0 → s'.diagnostics.world = world) := by
  obtain ⟨budget, t, m, s', evaluation⟩ :=
    balanced.returns bounded calm inside (s := Driver.fresh α world) rfl
  obtain rfl : m = some next := evaluation.recognizes.unique derives.recognizes
  have bounded' := bounded.withBudget budget
  have sends := evaluation.sends balanced graded bounded' inside .empty
  obtain ⟨f, derives', matched⟩ := evaluation.keeps blanks isDefect bounded' inside sends
  obtain rfl : f = forest := derives.unique derives'
  have sent := counts _ _ _ matched
  have charged : s'.diagnostics.report.errors =
      (Driver.fresh α world).diagnostics.report.errors + errorsSent (subject.withBudget budget) t :=
    evaluation.charged
  have reported : s'.diagnostics.report.errors = errors := by
    rw [charged, sent]
    exact Nat.zero_add _
  have afforded := evaluation.affordable (reported ▸ affords)
  rw [Subject.withBudget_self] at afforded
  have charged' : s'.diagnostics.report.errors =
      (Driver.fresh α world).diagnostics.report.errors + errorsSent subject t := afforded.charged
  have none : (Driver.fresh α world).diagnostics.report.errors = 0 := rfl
  refine ⟨t, s', afforded, reported, fun clean => ?_⟩
  have trail : Trail subject (Driver.fresh α world).diagnostics t s'.diagnostics :=
    afforded.follows
  exact trail.quiet .empty (afforded.effects graded) (by omega)

end Backtrack
