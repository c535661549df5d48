import Backtrack.Proofs.Affording
import Backtrack.Proofs.Verdicts

/-! The course of a parse, told from its range. Where the derivation of a range tells how many
errors its match sends, it decides what is replayed, what is reported and how the parse ends, as
long as the budget exceeds them. Where the errors of a rule are the defects in its derivations, a
report below the budget means that it does. -/
namespace Backtrack

variable {σ α : Type}

namespace Driver

section Courses

variable {rule : Rule α} {d : Driver} {source : Source} {start stop next : Nat}
  {verdict : List (Tree α) → Bool} {blanks : CharSet} {isDefect : α → Bool}
  {forest : List (Tree α)}

theorem scribe_calm (verdict : List (Tree α) → Bool) : (scribe verdict).Calm :=
  ⟨fun _ _ _ _ => nofun, fun _ forest _ => ⟨verdict forest, _, rfl⟩⟩

theorem scribe_judges (verdict : List (Tree α) → Bool) : (scribe verdict).Judges verdict :=
  fun _ _ => .pure

/-- A derivation that the budget affords is what is replayed, and what is reported are the errors
that it tells. -/
theorem course_of_derives (balanced : rule.Balanced) (graded : rule.Graded) {errors : Nat}
    (counts : ∀ head after sent, (rule.outlook blanks isDefect).Matched head after sent
      (Tree.defects isDefect forest) → sent = errors) (idle : d.busy = false)
    (accepted : refuse? source.size start stop = none) (verdict : List (Tree α) → Bool)
    (derives : Derives source (min stop source.size) rule start next forest)
    (affords : errors < d.budget) :
    ∃ course : Course α, course.Fits d rule source start stop verdict ∧
      course.forest? = some forest ∧
      course.outcome = .classify (verdict forest) (next == min stop source.size) ∧
      course.driver.lastReport.errors = errors ∧ (errors = 0 → course.messages = []) := by
  have bounded := d.subject_bounded (scribe verdict) source stop
  have inside := start_inside accepted d (scribe verdict)
  have calm : (d.subject (scribe verdict) source stop).monitor.Calm :=
    monitor_calm (scribe_calm verdict) d source stop
  obtain ⟨t, s, evaluation, reported, quiet⟩ :=
    derives.affordable balanced graded counts bounded calm inside affords []
  have run := evaluation.verdict_eq bounded inside
  obtain ⟨f, derives', fits⟩ := course_matched balanced idle accepted run
  obtain rfl : f = forest := derives.unique derives'
  refine ⟨_, fits, rfl, rfl, ?_, fun clean => ?_⟩
  · simp [lastReport, idle, reported]
  · rw [quiet clean, kept]
    split <;> rfl

/-- A parse whose report stays below the budget has afforded the derivation of its range. -/
theorem Course.Fits.affords {course : Course α}
    (fits : course.Fits d rule source start stop verdict) (balanced : rule.Balanced)
    (graded : rule.Graded) (even : (rule.outlook blanks isDefect).net = some 0)
    (idle : d.busy = false) (accepted : refuse? source.size start stop = none)
    (derives : Derives source (min stop source.size) rule start next forest)
    (within : course.driver.lastReport.errors < d.budget) :
    Tree.defects isDefect forest < d.budget := by
  obtain ⟨notices, -, parsed⟩ := fits _ (scribe verdict) (fun _ _ _ => nofun)
    (fun forest notices => ⟨notices, rfl⟩) []
  have returned := congrArg (·.outcome) parsed
  have reported := congrArg (·.driver.lastReport.errors) parsed
  by_cases matched : ∃ next s, rule.run (d.subject (scribe verdict) source stop) false start
    (fresh α []) = .ok (some next) s
  · obtain ⟨next, s, run⟩ := matched
    obtain ⟨f, derives', -, -, reports⟩ :=
      parse_judged balanced idle accepted (scribe_judges verdict) returned run
    obtain rfl : f = forest := derives.unique derives'
    obtain ⟨t, evaluation⟩ := evaluates_of_run accepted run
    obtain ⟨_, _, kept⟩ := root_keeps balanced graded accepted blanks isDefect evaluation derives'
    have count := kept.even even
    rw [reports t evaluation] at count
    rw [← count]
    exact Nat.lt_of_le_of_lt (Nat.le_of_eq reported) within
  · have unmatched (next s) : rule.run (d.subject (scribe verdict) source stop) false start
        (fresh α []) ≠ .ok (some next) s := fun run => matched ⟨next, s, run⟩
    obtain ⟨ended | ended, -⟩ := parse_unjudged idle accepted returned unmatched
    · obtain ⟨s, run⟩ := run_of_notParsed idle accepted (ended ▸ returned) unmatched
      obtain ⟨t, evaluation⟩ := evaluates_of_run accepted run
      exact absurd evaluation.recognizes derives.not_fails
    · obtain ⟨_, -, watched⟩ := fits _ (scribe verdict).watched (fun _ _ _ => nofun)
        (fun forest world => ⟨_, rfl⟩) { world := [] }
      have positive : 0 < d.budget := Nat.zero_lt_of_lt within
      have attached (driver : Driver) (world : List Notice) (notice : Notice) :
          ((scribe verdict).sink driver world notice).2 ≠ .detach := nofun
      have notes := d.monitor_notes attached source stop
      obtain ⟨last, closed, finishes⟩ := parse_finishes idle accepted positive notes
        (congrArg (·.outcome) watched)
      obtain ⟨t, evaluation⟩ := rule.evaluates
        (d.subject_bounded (scribe verdict).watched source stop) false start
        (fresh α { world := [] }) (start_inside accepted d _)
      have spent := (finishes t evaluation).account.2.1.mp ended
      have same : course.driver = _ := congrArg (·.driver) (watched.symm.trans closed)
      rw [same, lastReport, idle] at within
      exact absurd spent (Nat.ne_of_lt within)

end Courses

end Driver

namespace Config

/-- The receiver of the client takes every call. -/
def Client.Accepting (client : Client σ) : Prop :=
  ∀ p world call, (client.receiver p world call).2 = .keep

namespace Parser

variable {client : Client σ} {source : Source} {start stop : Nat}
  {forest : List (Tree Action)}

/-- The log of a calm client over a range that has a derivation. -/
theorem parse_derived (p : Parser) (idle : p.driver.busy = false) (calm : client.Calm)
    (ordered : start < stop) (inside : stop ≤ source.size)
    (derives : Derives source stop (Grammar.root p.policy) start stop forest) (world : σ) :
    let run := p.parseRange source start stop client.logged { world }
    let errors := run.parser.driver.lastReport.errors
    (errors < p.driver.budget ↔ Tree.defects isDefect forest < p.driver.budget) ∧
    (errors < p.driver.budget →
      errors = Tree.defects isDefect forest ∧
      run.outcome = .ok (if forest.all isValid then .allValid else .notValid) ∧
      (errors = 0 → run.world.messages = []) ∧
      UpToRefusal (allCalls p.policy forest) run.world.calls ∧
      (client.Accepting → run.world.calls.map (·.given) = allCalls p.policy forest)) := by
  intro run errors
  have balanced : (Grammar.root p.policy).Balanced := (Shipped.config p.policy).balanced
  have graded := Grammar.graded p.policy
  have even := Grammar.net_zero p.policy
  have accepted : Driver.refuse? source.size start stop = none := by
    unfold Driver.refuse?
    grind
  have clipped : min stop source.size = stop := Nat.min_eq_left inside
  have derives' : Derives source (min stop source.size) (Grammar.root p.policy) start stop forest :=
    clipped.symm ▸ derives
  have affords (within : errors < p.driver.budget) :
      Tree.defects isDefect forest < p.driver.budget := by
    obtain ⟨course, fits, -⟩ :=
      Driver.parse_course balanced idle accepted (·.all isValid)
    obtain ⟨_, _, _, logged, -⟩ := p.parse_log source start stop world calm fits
    have same : errors = course.driver.lastReport.errors :=
      congrArg (·.parser.driver.lastReport.errors) logged
    exact fits.affords balanced graded even idle accepted derives' (same ▸ within)
  have afforded (few : Tree.defects isDefect forest < p.driver.budget) :
      errors = Tree.defects isDefect forest ∧
      run.outcome = .ok (if forest.all isValid then .allValid else .notValid) ∧
      (errors = 0 → run.world.messages = []) ∧
      UpToRefusal (allCalls p.policy forest) run.world.calls ∧
      (client.Accepting → run.world.calls.map (·.given) = allCalls p.policy forest) := by
    obtain ⟨course, fits, replayed, judged, reported, quiet⟩ :=
      Driver.course_of_derives balanced graded (fun _ _ _ matched => matched.even even) idle
        accepted (·.all isValid) derives' few
    obtain ⟨heard, part, last, logged, messages, calls, -, genuine⟩ :=
      p.parse_log source start stop world calm fits
    have count : errors = Tree.defects isDefect forest :=
      (congrArg (·.parser.driver.lastReport.errors) logged).trans reported
    rw [clipped, beq_self_eq_true, Outcome.classify_atEnd] at judged
    rw [replayed] at calls
    rw [count]
    have made : run.world.calls = part := congrArg (·.world.calls) logged
    refine ⟨rfl, ?_, fun clean => ?_, made ▸ calls, fun accepting => ?_⟩
    · exact (congrArg (·.outcome) logged).trans (congrArg Except.ok judged)
    · rw [quiet clean] at messages
      exact (congrArg (·.world.messages) logged).trans messages.eq_nil
    · rw [made]
      exact calls.all_given fun e member => (genuine e member).not_refused accepting
  exact ⟨⟨affords, fun few => (afforded few).1 ▸ few⟩, fun within => afforded (affords within)⟩

end Parser
end Config
end Backtrack
