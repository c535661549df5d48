import Backtrack.Proofs.Verdicts

/-! What a match dictates. What every effect keeps and no settling or taking back disturbs holds all
along an evaluation; so a rule that touches no scope sends everything inside the scopes that it
began in. A scribe then holds just what the effects have sent, each message behind its
introduction. -/
namespace Backtrack

variable {σ α : Type}

section Invariants

variable {subject : Subject σ} {stage : Stage} {rule : Rule α} {silent : Bool} {pos : Nat}
  {s : Matching σ α} {t : List (Performance σ)} {r : Verdict σ α}

theorem Diagnostics.rewind_crumbs {d e : Diagnostics σ} (same : e.crumbs = d.crumbs) (pos : Nat) :
    (e.rewind d.mark pos).crumbs = d.crumbs := by
  simp only [rewind, mark, same, Breadcrumbs.truncate_depth]

/-- The effect opens or closes a scope. -/
def Effect.scopes : Effect → Bool
  | .enterScope _ | .leaveScope | .replaceScope _ => true
  | _ => false

theorem Performance.keeps_crumbs {p : Performance σ} {d : Diagnostics σ}
    (plain : p.effect.scopes = false) (done : p.outcome subject = .ok () d) :
    d.crumbs = p.state.crumbs := by
  obtain ⟨span, done⟩ := apply_of_outcome done
  rw [(Diagnostics.apply_ok done).2]
  cases kind : p.effect <;> rw [kind] at plain <;> first | rfl | cases plain

/-- A rule that touches no scope. -/
def Rule.Scopeless (rule : Rule α) : Prop := rule.allEffects (!·.scopes) = true

/-- A rule that touches no scope performs its effects inside the scopes that it began in. -/
theorem Evaluates.crumbs_kept (h : Evaluates subject stage rule silent pos s t r)
    (scopeless : rule.Scopeless) :
    (∀ p ∈ t, p.state.crumbs = s.diagnostics.crumbs) ∧
      ∀ m s', r = .ok m s' → s'.diagnostics.crumbs = s.diagnostics.crumbs := by
  have keeps : Kept subject (·.crumbs = s.diagnostics.crumbs) (!·.effect.scopes) := {
    settle := fun _ same => same
    rewind := fun before same =>
      (Diagnostics.rewind_crumbs (same.trans before.symm) _).trans before
    perform := fun plain same done =>
      (Performance.keeps_crumbs (by simpa using plain) done).trans same }
  exact h.kept keeps (h.effects scopeless) rfl

/-- A rule without effects. -/
def Rule.Effectless (rule : Rule α) : Prop := rule.allEffects (fun _ => false) = true

/-- A rule without effects performs none and leaves the diagnostics as they were. -/
theorem Evaluates.effectless (h : Evaluates subject stage rule silent pos s t r)
    (plain : rule.Effectless) :
    t = [] ∧ ∀ m s', r = .ok m s' → s'.diagnostics = s.diagnostics := by
  refine ⟨List.eq_nil_iff_forall_not_mem.mpr fun p member =>
    Bool.false_ne_true (h.effects plain p member), ?_⟩
  have keeps : Kept subject (· = s.diagnostics) (fun _ => False) := {
    settle := fun before same => by rw [before, same, Diagnostics.settle_mark]
    rewind := fun before same => by rw [before, same, Diagnostics.rewind_mark]
    perform := nofun }
  exact (h.kept keeps (fun p member => Bool.false_ne_true (h.effects plain p member)) rfl).2

end Invariants

section Errors

variable {subject : Subject σ}

/-- The effect may send what a failed attempt has left. -/
def Effect.claims : Effect → Bool
  | .popAbandoned => true
  | _ => false

/-- The effect sends nothing. -/
def Effect.quiet : Effect → Bool
  | .pop | .popAbandoned | .sendNow _ => false
  | _ => true

theorem Effect.quiet_of_sends {e : Effect} (none : e.Sends 0) (own : e.claims = false) :
    e.quiet = true := by
  cases e with
  | pop | sendNow => cases none
  | popAbandoned => cases own
  | _ => rfl

theorem Performance.unsent {p : Performance σ} (quiet : p.effect.quiet = true) :
    p.sent? subject = none := by
  unfold sent?
  split
  · rfl
  cases kind : p.effect <;> rw [kind] at quiet <;> first | rfl | cases quiet

/-- Where effects send what their kinds tell, all that is sent are errors. -/
theorem Performance.error_of_sent {p : Performance σ} (sends : p.effect.Sends (p.errors subject))
    (own : p.effect.claims = false) {notice : Notice} (sent : p.sent? subject = some notice) :
    notice.level.isError = true := by
  cases mild : notice.level.isError with
  | true => rfl
  | false =>
    have none : p.errors subject = 0 := by simp [errors, sent, Notice.charge, mild]
    rw [none] at sends
    cases (unsent (Effect.quiet_of_sends sends own)).symm.trans sent

/-- The messages that these effects send. -/
def noticesSent (subject : Subject σ) (t : List (Performance σ)) : List Notice :=
  t.filterMap (·.sent? subject)

/-- These effects send what their kinds tell, and claim nothing that was abandoned. -/
def Forthright (subject : Subject σ) (t : List (Performance σ)) : Prop :=
  ∀ p ∈ t, p.effect.Sends (p.errors subject) ∧ p.effect.claims = false

theorem Forthright.append_iff {t u : List (Performance σ)} :
    Forthright subject (t ++ u) ↔ Forthright subject t ∧ Forthright subject u :=
  List.forall_mem_append

theorem Forthright.errors {t : List (Performance σ)} (forthright : Forthright subject t) :
    (∀ notice ∈ noticesSent subject t, notice.level.isError = true) ∧
      (noticesSent subject t).length = errorsSent subject t := by
  have errors : ∀ notice ∈ noticesSent subject t, notice.level.isError = true := by
    intro notice member
    obtain ⟨p, performed, sent⟩ := List.mem_filterMap.mp member
    obtain ⟨sends, own⟩ := forthright p performed
    exact Performance.error_of_sent sends own sent
  exact ⟨errors, (List.countP_eq_length.mpr errors).symm⟩

theorem noticesSent_append (t u : List (Performance σ)) :
    noticesSent subject (t ++ u) = noticesSent subject t ++ noticesSent subject u :=
  List.filterMap_append

/-- A rule of quiet effects sends nothing. -/
theorem Evaluates.quiet {stage : Stage} {rule : Rule α} {silent : Bool} {pos : Nat}
    {s : Matching σ α} {t : List (Performance σ)} {r : Verdict σ α}
    (h : Evaluates subject stage rule silent pos s t r)
    (quiet : rule.allEffects Effect.quiet = true) :
    noticesSent subject t = [] :=
  List.filterMap_eq_nil_iff.mpr fun p member => Performance.unsent (h.effects quiet p member)

theorem packets_of_quiet {t : List (Performance σ)} (quiet : noticesSent subject t = []) :
    t.flatMap (·.packet subject) = [] := by
  refine List.flatMap_eq_nil_iff.mpr fun p member => ?_
  rw [Performance.packet, List.filterMap_eq_nil_iff.mp quiet p member]

/-- What sends nothing may stand in front. -/
theorem noticesSent_behind {t u : List (Performance σ)} (quiet : noticesSent subject t = []) :
    noticesSent subject (t ++ u) = noticesSent subject u ∧
      (t ++ u).flatMap (·.packet subject) = u.flatMap (·.packet subject) := by
  rw [noticesSent_append, List.flatMap_append, quiet, packets_of_quiet quiet]
  exact ⟨rfl, rfl⟩

/-- What is sent inside the same scopes throughout. -/
theorem packets_of_crumbs {t : List (Performance σ)} {crumbs : Breadcrumbs}
    (same : ∀ p ∈ t, p.state.crumbs = crumbs) :
    t.flatMap (·.packet subject) = (noticesSent subject t).flatMap crumbs.packet := by
  induction t with
  | nil => rfl
  | cons p t ih =>
    obtain ⟨here, later⟩ := List.forall_mem_cons.mp same
    rw [List.flatMap_cons, ih later, Performance.packet, here, noticesSent, noticesSent,
      List.filterMap_cons]
    cases p.sent? subject <;> rfl

/-- What a rule sends that touches no scope. -/
theorem Evaluates.scopeless {stage : Stage} {rule : Rule α} {silent : Bool} {pos : Nat}
    {s s' : Matching σ α} {t : List (Performance σ)} {m : Option Nat} (plain : rule.Scopeless)
    (h : Evaluates subject stage rule silent pos s t (.ok m s')) :
    t.flatMap (·.packet subject) =
        (noticesSent subject t).flatMap s.diagnostics.crumbs.packet ∧
      s'.diagnostics.crumbs = s.diagnostics.crumbs := by
  obtain ⟨before, last⟩ := h.crumbs_kept plain
  exact ⟨packets_of_crumbs before, last _ _ rfl⟩

end Errors

section Scribes

variable {m : Monitor (List Notice)}

/-- The sink keeps every message. -/
def Monitor.Scribes (m : Monitor (List Notice)) : Prop :=
  ∀ notices notice, m.sink notices notice = (notices ++ [notice], .keep)

namespace Diagnostics

variable {d d' : Diagnostics (List Notice)} {notice : Notice}

theorem deliver_scribed (scribes : m.Scribes) (attached : d.detached = false) :
    deliver m notice d = .ok () { d with world := d.world ++ [notice] } := by
  unfold deliver
  rw [if_neg (by simp [attached]), scribes]

theorem introduce_scribed (scribes : m.Scribes) (attached : d.detached = false) :
    introduce m notice d = .ok () { d with world := d.world ++ d.crumbs.introduction notice } := by
  unfold introduce Breadcrumbs.introduction
  cases notice.level.isError with
  | false => simp
  | true =>
    cases d.crumbs.top? with
    | none => simp
    | some crumb => exact deliver_scribed scribes attached

/-- A scribe writes a message down behind its introduction, before it is charged. -/
theorem send_eq (scribes : m.Scribes) (attached : d.detached = false) (notice : Notice) :
    send m notice d = charge m notice { d with world := d.world ++ d.crumbs.packet notice } := by
  unfold send
  rw [bind_apply, introduce_scribed scribes attached]
  dsimp only
  rw [bind_apply, deliver_scribed scribes (by exact attached)]
  dsimp only
  rw [Breadcrumbs.packet, List.append_assoc]

theorem send_scribed (scribes : m.Scribes) (attached : d.detached = false)
    (sent : send m notice d = .ok () d') :
    d'.detached = false ∧ d'.world = d.world ++ d.crumbs.packet notice := by
  rw [send_eq scribes attached, charge_eq] at sent
  split at sent <;> cases sent
  exact ⟨attached, rfl⟩

end Diagnostics

variable {subject : Subject (List Notice)}

theorem Performance.scribed (scribes : subject.monitor.Scribes) {p : Performance (List Notice)}
    {d : Diagnostics (List Notice)} (attached : p.state.detached = false)
    (done : p.outcome subject = .ok () d) :
    d.detached = false ∧ d.world = p.state.world ++ p.packet subject := by
  unfold packet
  obtain ⟨unsent, _, _, rfl⟩ | ⟨notice, pending, sent, done⟩ := outcome_ok done
  · rw [unsent]
    exact ⟨attached, (List.append_nil _).symm⟩
  · rw [sent]
    exact Diagnostics.send_scribed (d := { p.state with pending }) scribes attached done

/-- Along a trail a scribe writes down what the effects send. -/
theorem Trail.scribed (scribes : subject.monitor.Scribes) {d final : Diagnostics (List Notice)}
    {t : List (Performance (List Notice))} (trail : Trail subject d t final)
    (attached : d.detached = false) :
    final.detached = false ∧ final.world = d.world ++ t.flatMap (·.packet subject) := by
  induction trail with
  | nil => exact ⟨attached, (List.append_nil _).symm⟩
  | settle _ ih | rewind _ ih => exact ih attached
  | perform done _ ih =>
    obtain ⟨still, here⟩ := Performance.scribed scribes attached done
    obtain ⟨last, later⟩ := ih still
    refine ⟨last, ?_⟩
    rw [later, here, List.flatMap_cons, List.append_assoc]

end Scribes

namespace Driver

variable {rule : Rule α} {d : Driver} {source : Source} {start stop : Nat}

/-- The course of a parse. Where the root rule matches, its messages are what a scribe has heard of
the evaluation. -/
theorem parse_dictated (balanced : rule.Balanced) (idle : d.busy = false)
    (accepted : refuse? source.size start stop = none) (verdict : List (Tree α) → Bool) :
    let subject := d.subject (scribe verdict) source stop
    ∃ course : Course α, course.Fits d rule source start stop verdict ∧
      ((∃ t next s forest,
          Evaluates subject .attempt rule false start (fresh α []) t (.ok (some next) s) ∧
          Derives source (min stop source.size) rule start next forest ∧
          course.forest? = some forest ∧
          course.outcome = .classify (verdict forest) (next == min stop source.size) ∧
          course.messages = t.flatMap (·.packet subject)) ∨
        course.forest? = none ∧ (course.outcome = .notParsed ∨ course.outcome = .aborted)) := by
  intro subject
  by_cases matched : ∃ next s, rule.run subject false start (fresh α []) = .ok (some next) s
  · obtain ⟨next, s, run⟩ := matched
    obtain ⟨t, evaluation⟩ := evaluates_of_run accepted run
    obtain ⟨forest, derives, fits⟩ := course_matched balanced idle accepted run
    have trail : Trail _ (fresh α []).diagnostics t s.diagnostics := evaluation.follows
    obtain ⟨attached, written⟩ := trail.scribed (fun _ _ => rfl) rfl
    refine ⟨_, fits, .inl ⟨t, next, s, forest, evaluation, derives, rfl, rfl, ?_⟩⟩
    simp only [kept, attached, Bool.false_eq_true, if_false]
    exact written.trans (List.nil_append _)
  · obtain ⟨course, fits, ended⟩ := course_unjudged balanced idle accepted
      fun next s run => matched ⟨next, s, run⟩
    exact ⟨course, fits, .inr ended⟩

end Driver
end Backtrack
