import Mathlib.Data.List.Basic
import Backtrack.Proofs.Verdicts

/-! Refused requests and attempts. A request is refused for a busy driver or for its range, and then
nothing is matched, sent or replayed and the driver stays as it is. Any other request is an attempt:
it ends in a verdict or, when an error has used up the budget, in `aborted`. The outcomes that imply
an attempt are the verdicts, so `aborted` is not among them although it is an attempt that ends
so. -/
namespace Backtrack

variable {σ α β : Type}

/-- An error has used up the budget. -/
def Report.Spends (r : Report) (budget : Nat) : Prop := 0 < r.errors ∧ budget ≤ r.errors

/-- Goes on with budget left, or ends because an error has used it up. -/
def Spending (m : Monitor σ) : EStateM.Result Stop (Diagnostics σ) β → Prop :=
  Ends (fun _ d => ¬ d.report.Spends m.budget) (fun d => d.report.Spends m.budget)

namespace Diagnostics

variable {m : Monitor σ} {d : Diagnostics σ}

theorem charge_spending (left : ¬ d.report.Spends m.budget) (notice : Notice) :
    Spending m (charge m notice d) := by
  rw [charge_eq]
  by_cases error : notice.level.isError = true
  · by_cases spent : m.budget ≤ (d.charged notice).report.errors
    · rw [if_pos ⟨error, spent⟩]
      exact ⟨by simp [charged, error], spent⟩
    · rw [if_neg fun h => spent h.2]
      exact fun h => spent h.2
  · rw [if_neg fun h => error h.1]
    have same : (d.charged notice).report.errors = d.report.errors := by simp [charged, error]
    exact fun spent => left (by rwa [Report.Spends, same] at spent)

theorem send_spending (left : ¬ d.report.Spends m.budget) (notice : Notice) :
    Spending m (send m notice d) :=
  send_of_charge fun _ same => charge_spending (same ▸ left) notice

theorem flushAbandoned_spending (left : ¬ d.report.Spends m.budget) :
    Spending m (flushAbandoned m d) := by
  have each (a : Abandoned) (d : Diagnostics σ) (left : ¬ d.report.Spends m.budget) :
      Spending m (send m a.entry.notice d) := send_spending left a.entry.notice
  change Spending m ((d.pending.abandoned.toList.filter (!·.claimed)).forM
    (fun a => send m a.entry.notice) { d with pending.abandoned := #[] })
  exact Ends.forM each _ left

end Diagnostics

section Match

variable {subject : Subject σ}

theorem Performance.spending (p : Performance σ)
    (left : ¬ p.state.report.Spends subject.monitor.budget) :
    Spending subject.monitor (p.outcome subject) := by
  refine p.outcome_cases subject (fun _ => trivial) (fun _ _ _ => left) ?_
  exact fun pending notice _ => Diagnostics.send_spending (d := { p.state with pending }) left notice

theorem Kept.spending (subject : Subject σ) :
    Kept subject (fun d => ¬ d.report.Spends subject.monitor.budget) (fun _ => True) where
  settle _ here := here
  rewind _ here := here
  perform {p d} _ left done := by
    have ends := p.spending left
    rw [done] at ends
    exact ends

/-- A match goes on as long as the budget is not used up. -/
theorem Evaluates.spending {stage : Stage} {rule : Rule α} {silent : Bool} {pos : Nat}
    {s : Matching σ α} {t : List (Performance σ)} {r : Verdict σ α}
    (h : Evaluates subject stage rule silent pos s t r)
    (left : ¬ s.diagnostics.report.Spends subject.monitor.budget) :
    Ends (fun _ s' => ¬ s'.diagnostics.report.Spends subject.monitor.budget)
      (fun s' => s'.diagnostics.report.Spends subject.monitor.budget) r := by
  obtain ⟨before, last⟩ := h.kept (Kept.spending subject) (fun _ _ => trivial) left
  have follows := h.follows
  rcases r with ⟨m, s'⟩ | ⟨errors | fault, s'⟩
  · exact last m s' rfl
  · obtain ⟨u, p, rfl, -, stopped⟩ := follows
    have ends := p.spending (before p (by simp))
    rw [stopped] at ends
    exact ends
  · trivial

end Match

namespace Driver

variable {subject : Subject σ}

theorem replay_uncharged (host : EStateM Fault σ Bool) (s : Matching σ α) :
    Ends (fun _ s' => s'.diagnostics.report = s.diagnostics.report) (fun _ => False)
      (replay host s) := by
  unfold replay
  cases host s.diagnostics.world with
  | ok valid world => rfl
  | error fault world => trivial

/-- What follows the match implies an attempt, or the messages of its failure use up the budget. -/
theorem conclude_spending (host : List (Tree α) → EStateM Fault σ Bool) (m : Option Nat)
    {s : Matching σ α} (left : ¬ s.diagnostics.report.Spends subject.monitor.budget) :
    Ends
      (fun outcome s' => outcome.impliesAttempt = true ∧
        ¬ s'.diagnostics.report.Spends subject.monitor.budget)
      (fun s' => s'.diagnostics.report.Spends subject.monitor.budget)
      (conclude subject host m s) := by
  cases m with
  | none =>
    refine Ends.bind (Ends.on_diagnostics (Diagnostics.flushAbandoned_spending left)) ?_
    rintro _ s₁ ⟨-, left₁⟩
    refine Ends.bind (Ends.on_diagnostics (Diagnostics.send_spending left₁ _)) ?_
    rintro _ s₂ ⟨-, left₂⟩
    exact ⟨rfl, left₂⟩
  | some next =>
    rw [conclude_some]
    split
    · trivial
    · cases Journal.forest subject.source s.events.toList with
      | error fault => trivial
      | ok forest =>
        refine Ends.bind (replay_uncharged (host forest) s.drained).never ?_
        intro valid s₁ same
        refine ⟨?_, same ▸ left⟩
        cases valid <;> cases next == subject.stop <;> rfl

theorem announced_spending {m : Monitor σ} {body : MatchM σ α Outcome} {s : Matching σ α}
    (restatement : Option String)
    (h : Ends
      (fun outcome s' => outcome.impliesAttempt = true ∧
        ¬ s'.diagnostics.report.Spends m.budget)
      (fun s' => s'.diagnostics.report.Spends m.budget) (body s)) :
    Ends
      (fun outcome s' =>
        outcome.impliesAttempt = true ∧ ¬ s'.diagnostics.report.Spends m.budget ∨
        outcome = .aborted ∧ s'.diagnostics.report.Spends m.budget)
      (fun _ => False) (announced restatement m body s) := by
  unfold announced
  rcases run : body s with ⟨outcome, s₁⟩ | ⟨errors | fault, s₁⟩ <;> rw [run] at h
  · exact .inl h
  · refine Ends.bind (Ends.on_diagnostics
      (Diagnostics.announceAbort_uncharged m restatement s₁.diagnostics)) ?_
    rintro _ s₂ ⟨-, same⟩
    have spent : s₁.diagnostics.report.Spends m.budget := h
    exact .inr ⟨rfl, by rwa [Report.Spends, same]⟩
  · trivial

variable {rule : Rule α} {d : Driver} {host : Host σ α} {source : Source} {start stop : Nat}
  {world : σ} {outcome : Outcome}

/-- An attempt that is answered ends in an outcome that implies it, unless its budget is used up. -/
theorem parse_spending (idle : d.busy = false) (accepted : refuse? source.size start stop = none)
    (returned : (d.parse host rule source start stop world).outcome = .ok outcome) :
    let report := (d.parse host rule source start stop world).driver.lastReport
    outcome.impliesAttempt = true ∧ ¬ report.Spends d.budget ∨
      outcome = .aborted ∧ report.Spends d.budget := by
  obtain ⟨t, evaluation⟩ := evaluates_of_run accepted
    (rfl : rule.run (d.subject host source stop) false start (fresh α world) = _)
  have fresh_left : ¬ (fresh α world).diagnostics.report.Spends d.budget :=
    fun h => absurd h.1 (Nat.lt_irrefl 0)
  have body : Ends _ _ (d.body host rule source start stop (fresh α world)) :=
    (evaluation.spending fresh_left).bind fun m s left =>
      conclude_spending (host.replay d.inside) m left
  have ends := announced_spending (m := d.monitor host source stop) d.restatement body
  intro report
  rw [parse_eq idle accepted] at returned
  obtain ⟨s, finished, how⟩ := close_ok ends returned
  have reported : report = s.diagnostics.report := by
    simp only [report, parse_eq idle accepted, finished, lastReport, close, idle]
    rfl
  rw [reported]
  exact how

/-- The driver is busy, or the range cannot be parsed. -/
def Refuses (d : Driver) (source : Source) (start stop : Nat) : Prop :=
  d.busy = true ∨ refuse? source.size start stop ≠ none

theorem not_refuses_iff : ¬ d.Refuses source start stop ↔
    d.busy = false ∧ refuse? source.size start stop = none := by
  simp [Refuses]

theorem refuse?_not_attempt {size : Nat} (refused : refuse? size start stop = some outcome) :
    outcome.impliesAttempt = false ∧ outcome ≠ .aborted := by
  unfold refuse? at refused
  repeat' split at refused
  all_goals cases refused
  all_goals exact ⟨rfl, nofun⟩

/-- A refused request leaves the driver and the caller as they are. -/
theorem Refuses.parse_eq (refuses : d.Refuses source start stop) (host : Host σ α) (rule : Rule α)
    (world : σ) : ∃ refused : Outcome, refused.impliesAttempt = false ∧ refused ≠ .aborted ∧
      d.parse host rule source start stop world = ⟨d, world, .ok refused⟩ := by
  by_cases busy : d.busy = true
  · exact ⟨.parsingNow, rfl, nofun, parse_busy busy ..⟩
  · obtain ⟨refused, because⟩ := Option.ne_none_iff_exists'.mp (refuses.resolve_left busy)
    obtain ⟨silent, going⟩ := refuse?_not_attempt because
    exact ⟨refused, silent, going, parse_refused (by simpa using busy) because ..⟩

end Driver

/-- What the outcome of a parse tells of an attempt. A refused request does not imply one, and has
sent and replayed nothing and left the driver as it was. Otherwise the root rule has been matched,
and the outcome implies the attempt unless an error has used up the budget: an aborted parse is
not told apart from a refused one. -/
theorem parse_implies_attempt (d : Driver) (host : Host σ α) (rule : Rule α) (source : Source)
    (start stop : Nat) (world : σ) (outcome : Outcome)
    (returned : (d.parse host rule source start stop world).outcome = .ok outcome) :
    let watched := d.parse host.watched rule source start stop { world }
    let subject := d.subject host.watched source stop
    let s := Driver.fresh α { world }
    d.parse host rule source start stop world =
      ⟨watched.driver, watched.world.world, watched.outcome⟩ ∧
    (d.Refuses source start stop →
      watched.driver = d ∧ watched.world.received = [] ∧ watched.world.replays = 0 ∧
      outcome.impliesAttempt = false ∧ outcome ≠ .aborted) ∧
    (¬ d.Refuses source start stop →
      (∃ t, Evaluates subject .attempt rule false start s t (rule.run subject false start s)) ∧
      (outcome.impliesAttempt = true ↔ outcome ≠ .aborted) ∧
      (outcome = .aborted ↔ watched.driver.lastReport.Spends d.budget)) ∧
    (outcome.impliesAttempt = false ↔ d.Refuses source start stop ∨ outcome = .aborted) := by
  intro watched subject s
  have transparent := d.parse_watched host rule source start stop world
  rw [transparent] at returned
  refine ⟨transparent, ?_⟩
  by_cases refuses : d.Refuses source start stop
  · obtain ⟨refused, silent, going, same⟩ := refuses.parse_eq host.watched rule { world }
    obtain rfl : refused = outcome := by
      rw [same] at returned
      exact Except.ok.inj returned
    have unmoved : watched = ⟨d, { world }, .ok refused⟩ := same
    refine ⟨fun _ => ?_, fun accepts => absurd refuses accepts, ?_⟩
    · rw [unmoved]
      exact ⟨rfl, rfl, rfl, silent, going⟩
    · exact iff_of_true silent (.inl refuses)
  · obtain ⟨idle, accepted⟩ := Driver.not_refuses_iff.mp refuses
    have ended := Driver.parse_spending idle accepted returned
    have matched := Driver.evaluates_of_run accepted
      (rfl : rule.run subject false start s = _)
    obtain ⟨implied, left⟩ | ⟨rfl, spent⟩ := ended
    · have going : outcome ≠ .aborted := by
        rintro rfl
        cases implied
      refine ⟨fun refused => absurd refused refuses, fun _ => ⟨matched, ?_, ?_⟩, ?_⟩
      · exact iff_of_true implied going
      · exact iff_of_false going left
      · simp [implied, refuses, going]
    · refine ⟨fun refused => absurd refused refuses, fun _ => ⟨matched, ?_, ?_⟩, ?_⟩
      · decide
      · exact iff_of_true rfl spent
      · simp [Outcome.impliesAttempt, Outcome.isGood]

/-- Three messages wait when the root rule fails, and the message that it failed is the fourth
error of a budget of four. -/
theorem parse_implies_attempt_unmatched :
    let host : Host Unit Nat := ⟨fun _ _ _ => ((), .keep), fun _ _ => pure true⟩
    let vague (rule : Rule Nat) := rule.push (.minor "vague")
    let rule := vague (vague (vague (.literal [0x61]))) ++ .nothing
    let d : Driver := { budget := 4 }
    (d.parse host rule #[0x61] 0 1 ()).outcome = .ok .aborted ∧
    ¬ d.Refuses #[0x61] 0 1 ∧
    (d.parse host.watched rule #[0x61] 0 1 { world := () }).driver.lastReport.Spends 4 := by
  intro host vague rule d
  have returned : (d.parse host rule #[0x61] 0 1 ()).outcome = .ok .aborted := by decide +kernel
  have accepts : ¬ d.Refuses #[0x61] 0 1 := by
    rintro (busy | refused)
    · cases busy
    · exact refused (by decide)
  obtain ⟨-, -, attempted, -⟩ := parse_implies_attempt d host rule #[0x61] 0 1 () .aborted returned
  exact ⟨returned, accepts, (attempted accepts).2.2.mp rfl⟩

/-- A match that is aborted at the fourth error: the parse was not refused and has sent six
messages, and its outcome does not imply an attempt. -/
theorem aborted_implies_no_attempt :
    let host : Host Unit Nat := ⟨fun _ _ _ => ((), .keep), fun _ _ => pure true⟩
    let rule : Rule Nat := .many ((Rule.byte 0x78).sendNow (.minor "Stray x."))
    let d : Driver := { budget := 4 }
    let watched := d.parse host.watched rule #[0x78, 0x78, 0x78, 0x78] 0 4 { world := () }
    d.busy = false ∧ Driver.refuse? (#[0x78, 0x78, 0x78, 0x78] : Source).size 0 4 = none ∧
    watched.world.received.length = 6 ∧ watched.driver.lastReport.errors = 4 ∧
    watched.outcome = .ok .aborted ∧ Outcome.aborted.impliesAttempt = false := by
  decide +kernel

end Backtrack
