import Backtrack.Proofs.Accounting
import Backtrack.Proofs.Balance

/-! What a match is charged for. Whatever the sink does, the report counts the errors that the
effects send, one by one. How many an effect sends can be told from its kind where the rule is
balanced and every message of it is an error: the stack then holds errors only, and is never empty
when an entry is sent from it. -/
namespace Backtrack

variable {σ α : Type}

/-- What is charged for a message. -/
def Notice.charge (notice : Notice) : Nat := if notice.level.isError then 1 else 0

namespace Diagnostics

variable {m : Monitor σ} {notice : Notice} {d : Diagnostics σ}

theorem deliver_uncharged (m : Monitor σ) (notice : Notice) (d : Diagnostics σ) :
    Ends (fun _ d' => d'.report = d.report) (fun _ => False) (deliver m notice d) := by
  unfold deliver
  split
  · rfl
  · rcases m.sink d.world notice with ⟨world, _ | _ | reason⟩
    · rfl
    · rfl
    · trivial

theorem introduce_uncharged (m : Monitor σ) (notice : Notice) (d : Diagnostics σ) :
    Ends (fun _ d' => d'.report = d.report) (fun _ => False) (introduce m notice d) := by
  unfold introduce
  split
  · exact deliver_uncharged m _ d
  · rfl

theorem charge_charged (m : Monitor σ) (notice : Notice) (d : Diagnostics σ) :
    Ends (fun _ d' => d'.report.errors = d.report.errors + notice.charge)
      (fun d' => 0 < d'.report.errors) (charge m notice d) := by
  rw [charge_eq]
  by_cases spent : notice.level.isError ∧ m.budget ≤ (d.charged notice).report.errors
  · rw [if_pos spent]
    simp [Ends, charged, spent.1]
  · rw [if_neg spent]
    rfl

/-- Of a message that is sent only the charge touches the report. -/
theorem send_of_charge {ok : Unit → Diagnostics σ → Prop} {aborted : Diagnostics σ → Prop}
    (charges : ∀ d', d'.report = d.report → Ends ok aborted (charge m notice d')) :
    Ends ok aborted (send m notice d) := by
  refine Ends.bind (introduce_uncharged m notice d).never ?_
  intro _ d₁ same₁
  refine Ends.bind (deliver_uncharged m notice d₁).never ?_
  intro _ d₂ same₂
  exact charges d₂ (same₂.trans same₁)

/-- A message is charged if it is an error, and only an error uses up the budget. -/
theorem send_charged (m : Monitor σ) (notice : Notice) (d : Diagnostics σ) :
    Ends (fun _ d' => d'.report.errors = d.report.errors + notice.charge)
      (fun d' => 0 < d'.report.errors) (send m notice d) :=
  send_of_charge fun d' same => same ▸ charge_charged m notice d'

theorem flushAbandoned_charged (m : Monitor σ) (d : Diagnostics σ) :
    Ends (fun _ _ => True) (fun d' => 0 < d'.report.errors) (flushAbandoned m d) := by
  change Ends _ _ ((d.pending.abandoned.toList.filter (!·.claimed)).forM
    (fun a => send m a.entry.notice) { d with pending.abandoned := #[] })
  refine Ends.forM (fun a d _ => ?_) _ trivial
  exact (send_charged m a.entry.notice d).mono (fun _ _ _ => trivial) fun _ charged => charged

theorem announceAbort_uncharged (m : Monitor σ) (restatement : Option String)
    (d : Diagnostics σ) :
    Ends (fun _ d' => d'.report.errors = d.report.errors) (fun _ => False)
      (announceAbort m restatement d) := by
  change Ends _ _ ((deliver m ⟨.fatal "Too many errors found. Stopping parsing.", 0⟩ >>= fun _ =>
    deliver m ⟨.fatal (restatement.getD (d.last.getD "")), 0⟩ >>= fun _ =>
      modify fun d => { d with report.highest := max d.report.highest .fatal })
    { d with last := none })
  refine Ends.bind (deliver_uncharged m _ _) ?_
  intro _ d₁ same₁
  refine Ends.bind (deliver_uncharged m _ d₁) ?_
  intro _ d₂ same₂
  change d₂.report.errors = d.report.errors
  rw [same₂, same₁]

end Diagnostics

/-- How many errors an effect sends. -/
def Performance.errors (subject : Subject σ) (p : Performance σ) : Nat :=
  (p.sent? subject).elim 0 Notice.charge

/-- How many errors are among the messages that these effects send. -/
def errorsSent (subject : Subject σ) (t : List (Performance σ)) : Nat :=
  (t.filterMap (·.sent? subject)).countP (·.level.isError)

@[simp] theorem errorsSent_nil (subject : Subject σ) : errorsSent subject [] = 0 := rfl

@[simp] theorem errorsSent_append (subject : Subject σ) (t u : List (Performance σ)) :
    errorsSent subject (t ++ u) = errorsSent subject t + errorsSent subject u := by
  simp [errorsSent]

@[simp] theorem errorsSent_cons (subject : Subject σ) (p : Performance σ)
    (t : List (Performance σ)) :
    errorsSent subject (p :: t) = p.errors subject + errorsSent subject t := by
  rw [← List.singleton_append, errorsSent_append]
  congr 1
  cases sent : p.sent? subject <;> simp [errorsSent, Performance.errors, Notice.charge, sent]

section Charges

variable {subject : Subject σ}

theorem Performance.charged (p : Performance σ) :
    Ends (fun _ d => d.report.errors = p.state.report.errors + p.errors subject)
      (fun d => 0 < d.report.errors) (p.outcome subject) := by
  unfold errors
  refine p.outcome_cases subject (fun _ => trivial) ?_ ?_
  · intro pending crumbs unsent
    rw [unsent]
    rfl
  · intro pending notice sent
    rw [sent]
    exact Diagnostics.send_charged subject.monitor notice { p.state with pending }

theorem Trail.charged {d final : Diagnostics σ} {t : List (Performance σ)}
    (trail : Trail subject d t final) :
    final.report.errors = d.report.errors + errorsSent subject t := by
  induction trail with
  | nil => rfl
  | settle _ ih => exact ih
  | rewind _ ih => exact ih
  | @perform p _ t _ done _ ih =>
    have charged : Ends _ _ (p.outcome subject) := p.charged
    rw [done] at charged
    have here : _ = _ := charged
    rw [ih, here, errorsSent_cons, Nat.add_assoc]

/-- A match that comes to an end without a fault has counted the errors that it sent, and one that
uses up the budget has sent some. -/
theorem Evaluates.charged {stage : Stage} {rule : Rule α} {silent : Bool} {pos : Nat}
    {s : Matching σ α} {t : List (Performance σ)} {r : Verdict σ α}
    (h : Evaluates subject stage rule silent pos s t r) :
    Ends
      (fun _ s' => s'.diagnostics.report.errors =
        s.diagnostics.report.errors + errorsSent subject t)
      (fun s' => 0 < s'.diagnostics.report.errors) r := by
  have follows := h.follows
  rcases r with ⟨m, s'⟩ | ⟨errors | fault, s'⟩
  · exact Trail.charged follows
  · obtain ⟨u, p, rfl, -, stopped⟩ := follows
    have charged : Ends _ _ (p.outcome subject) := p.charged
    rw [stopped] at charged
    exact charged
  · trivial

end Charges

/-- Whatever message the effect brings is an error. -/
def Effect.graded : Effect → Bool
  | .push message | .prepare message | .sendNow message => message.level.isError
  | _ => true

/-- Every effect of the rule has this property. -/
def Rule.allEffects (q : Effect → Bool) : Rule α → Bool
  | seq a b | choice a b | difference a b => a.allEffects q && b.allEffects q
  | optional a | many a | many1 a | action a _ => a.allEffects q
  | effect a e => a.allEffects q && q e
  | _ => true

/-- Every entry, waiting or abandoned, is an error. -/
structure Pending.Graded (p : Pending) : Prop where
  stack : ∀ entry ∈ p.stack.toList, entry.message.level.isError = true
  abandoned : ∀ a ∈ p.abandoned.toList, a.entry.message.level.isError = true

/-- An effect of this kind sends so many errors. -/
def Effect.Sends : Effect → Nat → Prop
  | .pop, n | .sendNow _, n => n = 1
  | .popAbandoned, n => n ≤ 1
  | _, n => n = 0

section Graded

variable {subject : Subject σ} {stage : Stage} {rule : Rule α} {silent : Bool} {pos : Nat}
  {s : Matching σ α} {t : List (Performance σ)} {r : Verdict σ α}

/-- The effects that a match performs are effects of the rule. -/
theorem Evaluates.effects {q : Effect → Bool} (h : Evaluates subject stage rule silent pos s t r)
    (all : rule.allEffects q = true) : ∀ p ∈ t, q p.effect = true := by
  induction h with
  | leaf => exact List.forall_mem_nil _
  | seqEnd _ _ ih | choiceEnd _ _ ih | differenceEnd _ _ ih =>
    exact ih (Bool.and_eq_true_iff.mp all).1
  | seqNext _ _ ih₁ ih₂ | choiceNext _ _ ih₁ ih₂ | differenceStop _ _ ih₁ ih₂
  | differenceNext _ _ ih₁ ih₂ =>
    obtain ⟨first, second⟩ := Bool.and_eq_true_iff.mp all
    exact List.forall_mem_append.mpr ⟨ih₁ first, ih₂ second⟩
  | manyNext _ _ _ ih₁ ih₂ | many1Next _ _ _ ih₁ ih₂ =>
    exact List.forall_mem_append.mpr ⟨ih₁ all, ih₂ all⟩
  | optionalStop _ ih | optionalNext _ ih | manyStop _ ih | manyEnd _ _ ih | many1End _ _ ih
  | actionSilent _ ih | actionEnd _ _ ih | actionNext _ ih | close _ ih => exact ih all
  | effectSilent _ ih | effectEnd _ _ ih => exact ih (Bool.and_eq_true_iff.mp all).1
  | effectStop _ _ ih | effectNext _ _ ih =>
    obtain ⟨part, last⟩ := Bool.and_eq_true_iff.mp all
    exact List.forall_mem_append.mpr ⟨ih part, List.forall_mem_singleton.mpr last⟩

namespace Pending.Graded

variable {p : Pending}

theorem empty : ({} : Pending).Graded := ⟨by simp, by simp⟩

theorem push (graded : p.Graded) {entry : Entry} (error : entry.message.level.isError = true) :
    (p.push entry).Graded := by
  refine ⟨fun other member => ?_, graded.abandoned⟩
  simp only [Pending.push, Array.toList_push, List.mem_append, List.mem_singleton] at member
  rcases member with member | rfl
  · exact graded.stack other member
  · exact error

theorem pop (graded : p.Graded) : p.pop.Graded := by
  refine ⟨fun entry member => ?_, graded.abandoned⟩
  simp only [Pending.pop, Array.toList_pop] at member
  exact graded.stack entry (List.dropLast_subset _ member)

/-- What fails is abandoned as it was. -/
theorem abandonFrom (graded : p.Graded) (depth start : Nat) :
    (p.abandonFrom depth start).Graded := by
  unfold Pending.abandonFrom
  split
  · exact graded
  constructor
  · intro entry member
    simp only [Array.shrink_eq_take, Array.toList_extract, List.extract_eq_take_drop,
      List.drop_zero] at member
    exact graded.stack entry (List.mem_of_mem_take member)
  · intro a member
    simp only [Array.toList_appendList, List.mem_append, List.mem_reverse, List.mem_map] at member
    obtain member | ⟨⟨entry, height⟩, failed, rfl⟩ := member
    · exact graded.abandoned a member
    · have inside := List.fst_mem_of_mem_zipIdx failed
      simp only [Array.toList_extract, List.extract_eq_take_drop] at inside
      exact graded.stack entry (List.mem_of_mem_drop (List.mem_of_mem_take inside))

theorem settle (graded : p.Graded) (count : Nat) :
    Graded { p with abandoned := p.abandoned.shrink count } := by
  refine ⟨graded.stack, fun a member => ?_⟩
  simp only [Array.shrink_eq_take, Array.toList_extract, List.extract_eq_take_drop,
    List.drop_zero] at member
  exact graded.abandoned a (List.mem_of_mem_take member)

theorem claim? (graded : p.Graded) {start : Nat} {entry : Entry} {p' : Pending}
    (claimed : p.claim? start = some (entry, p')) :
    entry.message.level.isError = true ∧ p'.Graded := by
  simp only [Pending.claim?, Option.bind_eq_bind, Option.bind_eq_some_iff, Option.pure_def,
    Option.some.injEq, Prod.mk.injEq] at claimed
  obtain ⟨index, -, found, here, rfl, rfl⟩ := claimed
  have error := graded.abandoned found (Array.mem_toList_iff.mpr (Array.mem_of_getElem? here))
  refine ⟨error, graded.stack, fun a member => ?_⟩
  simp only [Array.toList_setIfInBounds] at member
  rcases List.mem_or_eq_of_mem_set member with member | rfl
  · exact graded.abandoned a member
  · exact error

theorem claimed (graded : p.Graded) (start : Nat) : (p.claimed start).Graded := by
  unfold Pending.claimed
  cases claim : p.claim? start with
  | none => exact graded
  | some claimed => exact (graded.claim? claim).2

end Pending.Graded

/-- A graded effect keeps the entries graded. -/
theorem Performance.graded {p : Performance σ} {d : Diagnostics σ}
    (done : p.outcome subject = .ok () d) (graded : p.state.pending.Graded)
    (effect : p.effect.graded = true) : d.pending.Graded := by
  obtain ⟨span, done⟩ := apply_of_outcome done
  rw [(Diagnostics.apply_ok done).1]
  cases kind : p.effect <;> rw [kind] at effect
  case push => exact graded.push effect
  case prepare => exact graded.pop.push effect
  case cancel | pop => exact graded.pop
  case popAbandoned => exact graded.claimed span.start
  all_goals exact graded

theorem Trail.graded {d final : Diagnostics σ} {t : List (Performance σ)}
    (trail : Trail subject d t final) (initial : d.pending.Graded)
    (effects : ∀ p ∈ t, p.effect.graded = true) : final.pending.Graded := by
  induction trail with
  | nil => exact initial
  | settle _ ih => exact ih (initial.settle _) effects
  | rewind _ ih => exact ih (initial.abandonFrom _ _) effects
  | perform done _ ih =>
    obtain ⟨first, rest⟩ := List.forall_mem_cons.mp effects
    exact ih (Performance.graded done initial first) rest

/-- How many errors an effect sends, where the stack holds errors only and enough of them. -/
theorem Performance.sends {p : Performance σ} (ordered : p.start ≤ p.stop)
    (supported : p.Supported) (graded : p.state.pending.Graded)
    (effect : p.effect.graded = true) : p.effect.Sends (p.errors subject) := by
  have high := supported .pending
  simp only [errors, sent?, Span.between, if_pos ordered]
  cases kind : p.effect <;> rw [kind] at high effect <;> simp only [Effect.Sends]
  case pop =>
    have filled : 0 < p.state.pending.stack.size := high
    obtain ⟨entry, top⟩ : ∃ entry, p.state.pending.stack.back? = some entry := by
      rw [Array.back?_eq_getElem?]
      exact ⟨_, Array.getElem?_eq_getElem (by omega)⟩
    have error := graded.stack entry (Array.mem_toList_iff.mpr (Array.mem_of_back? top))
    have charge : entry.notice.charge = 1 := if_pos error
    simp [top, charge]
  case popAbandoned =>
    cases p.state.pending.claim? _ with
    | none => exact Nat.zero_le _
    | some claimed =>
      simp only [Option.map_some, Option.elim_some, Notice.charge]
      split <;> omega
  case sendNow message => exact if_pos effect
  all_goals rfl

/-- Every message of the rule is an error. -/
def Rule.Graded (rule : Rule α) : Prop := rule.allEffects Effect.graded = true

/-- A balanced rule of errors sends what the kinds of its effects tell. -/
theorem Evaluates.sends (h : Evaluates subject stage rule false pos s t r)
    (balanced : rule.Balanced) (graded : rule.Graded) (bounded : subject.Bounded)
    (inside : pos ≤ subject.stop) (initial : s.diagnostics.pending.Graded) :
    ∀ p ∈ t, p.effect.Sends (p.errors subject) := by
  have effects := h.effects graded
  intro p member
  obtain ⟨u, v, rfl, trail⟩ := h.follows.before member
  refine Performance.sends (h.ordered bounded inside p member) (balanced.supported h p member) ?_
    (effects p member)
  exact trail.graded initial fun q earlier => effects q (List.mem_append_left _ earlier)

end Graded

end Backtrack
