import Backtrack.Proofs.Budget
import Backtrack.Proofs.Defects
import Backtrack.Proofs.Unswayed

/-! Verdicts and reports agree. Where the root rule of a parse matches, its report counts the errors
that the match has sent; where it does not, the parse has sent an error on its way out. What the
outlook of a grammar promises of its matches then makes the verdict on the journal a statement about
the messages. -/
namespace Backtrack

variable {σ α : Type}

/-- Whatever an operation returns is this result. -/
def Answers {ε τ β : Type} (result : β) (x : EStateM ε τ β) : Prop :=
  ∀ s b s', x s = .ok b s' → b = result

namespace Answers

variable {ε τ β γ : Type} {result : β}

theorem pure : Answers result (pure result : EStateM ε τ β) := by
  intro s b s' returned
  cases returned
  rfl

theorem bind {x : EStateM ε τ γ} {f : γ → EStateM ε τ β} (rest : ∀ c, Answers result (f c)) :
    Answers result (x >>= f) := by
  intro s b s' returned
  rw [bind_apply] at returned
  split at returned
  · exact rest _ _ _ _ returned
  · cases returned

end Answers

/-- A replay that does not give up judges by this verdict. -/
def Host.Judges (host : Host σ α) (verdict : List (Tree α) → Bool) : Prop :=
  ∀ driver forest, Answers (verdict forest) (host.replay driver forest)

namespace Outcome

@[simp] theorem isGood_classify (valid ateAll : Bool) :
    (classify valid ateAll).isGood = valid := by
  cases valid <;> cases ateAll <;> rfl

theorem classify_atEnd (valid : Bool) :
    classify valid true = if valid then .allValid else .notValid := by
  cases valid <;> rfl

theorem classify_of_not_isGood {valid ateAll : Bool}
    (bad : (classify valid ateAll).isGood ≠ true) : classify valid ateAll = .notValid := by
  cases valid
  · rfl
  · simp at bad

end Outcome

namespace Driver

/-- A failed match is followed by a fatal message. -/
theorem conclude_none_charged {subject : Subject σ} (host : List (Tree α) → EStateM Fault σ Bool)
    (s : Matching σ α) :
    Ends (fun outcome s' => outcome = .notParsed ∧ 0 < s'.diagnostics.report.errors)
      (fun s' => 0 < s'.diagnostics.report.errors) (conclude subject host none s) := by
  refine Ends.bind (Ends.on_diagnostics (Diagnostics.flushAbandoned_charged _ _)) ?_
  intro _ s₁ _
  refine Ends.bind (Ends.on_diagnostics (Diagnostics.send_charged _ _ _)) ?_
  rintro _ s₂ ⟨-, charged⟩
  refine ⟨rfl, ?_⟩
  have fatal : Notice.charge ⟨.fatal "Unable to finish parsing data.", 0⟩ = 1 := rfl
  omega

/-- A parse that ends without a match has sent an error. -/
theorem announced_charged {m : Monitor σ} {body : MatchM σ α Outcome} {s : Matching σ α}
    (restatement : Option String)
    (h : Ends (fun outcome s' => outcome = .notParsed ∧ 0 < s'.diagnostics.report.errors)
      (fun s' => 0 < s'.diagnostics.report.errors) (body s)) :
    Ends (fun outcome s' => (outcome = .notParsed ∨ outcome = .aborted) ∧
        0 < s'.diagnostics.report.errors)
      (fun _ => False) (announced restatement m body s) := by
  unfold announced
  rcases run : body s with ⟨outcome, s₁⟩ | ⟨errors | fault, s₁⟩ <;> rw [run] at h
  · exact ⟨.inl h.1, h.2⟩
  · refine Ends.bind (Ends.on_diagnostics
      (Diagnostics.announceAbort_uncharged m restatement s₁.diagnostics)) ?_
    rintro _ s₂ ⟨-, same⟩
    have spent : 0 < s₁.diagnostics.report.errors := h
    exact ⟨.inr rfl, same ▸ spent⟩
  · trivial

variable {rule : Rule α} {d : Driver} {host : Host σ α} {source : Source} {start stop : Nat}
  {verdict : List (Tree α) → Bool} {world : σ} {t : List (Performance σ)} {outcome : Outcome}

theorem evaluates_of_run (accepted : refuse? source.size start stop = none) {r : Verdict σ α}
    (run : rule.run (d.subject host source stop) false start (fresh α world) = r) :
    ∃ t, Evaluates (d.subject host source stop) .attempt rule false start (fresh α world) t r := by
  obtain ⟨t, evaluation⟩ := rule.evaluates (d.subject_bounded host source stop) false start
    (fresh α world) (start_inside accepted d host)
  exact ⟨t, run ▸ evaluation⟩

/-- A match of the root rule is judged by its journal, and the errors that it has sent are
reported, unless a fault ends the parse. -/
theorem parse_judged (balanced : rule.Balanced) (idle : d.busy = false)
    (accepted : refuse? source.size start stop = none) (judges : host.Judges verdict)
    (returned : (d.parse host rule source start stop world).outcome = .ok outcome) {next : Nat}
    {s : Matching σ α} (run : rule.run (d.subject host source stop) false start (fresh α world) =
      .ok (some next) s) :
    ∃ forest, Derives source (min stop source.size) rule start next forest ∧
      s.events.toList = Tree.eventsOf forest ∧
      outcome = .classify (verdict forest) (next == min stop source.size) ∧
      ∀ t, Evaluates (d.subject host source stop) .attempt rule false start (fresh α world) t
          (.ok (some next) s) →
        errorsSent (d.subject host source stop) t =
          (d.parse host rule source start stop world).driver.lastReport.errors := by
  obtain ⟨empty, forest, derives, events, read⟩ := root_matched balanced accepted run
  cases replayed : host.replay d.inside forest s.diagnostics.world with
  | error fault world' =>
    rw [parse_faulted idle accepted run empty read replayed] at returned
    cases returned
  | ok valid world' =>
    obtain rfl : valid = verdict forest := judges _ _ _ _ _ replayed
    rw [parse_matched idle accepted run empty read replayed] at returned ⊢
    refine ⟨forest, derives, events, (Except.ok.inj returned).symm, fun t evaluation => ?_⟩
    have charged : s.diagnostics.report.errors =
        (fresh α world).diagnostics.report.errors + errorsSent (d.subject host source stop) t :=
      evaluation.charged
    rw [lastReport, idle]
    exact (charged.trans (Nat.zero_add _)).symm

theorem body_charged (accepted : refuse? source.size start stop = none)
    (unmatched : ∀ next s, rule.run (d.subject host source stop) false start (fresh α world) ≠
      .ok (some next) s) :
    Ends (fun outcome s' => outcome = .notParsed ∧ 0 < s'.diagnostics.report.errors)
      (fun s' => 0 < s'.diagnostics.report.errors)
      (d.body host rule source start stop (fresh α world)) := by
  have matching : Ends (fun m _ => m = none) (fun s' => 0 < s'.diagnostics.report.errors)
      (rule.run (d.subject host source stop) false start (fresh α world)) := by
    rcases run : rule.run (d.subject host source stop) false start (fresh α world) with
      ⟨_ | next, s⟩ | ⟨errors | fault, s⟩
    · rfl
    · exact absurd run (unmatched next s)
    · obtain ⟨t, evaluation⟩ := evaluates_of_run accepted run
      exact evaluation.charged
    · trivial
  refine matching.bind ?_
  rintro _ s' rfl
  exact conclude_none_charged (host.replay d.inside) s'

/-- A parse without a match of the root rule reports an error. -/
theorem parse_unjudged (idle : d.busy = false) (accepted : refuse? source.size start stop = none)
    (returned : (d.parse host rule source start stop world).outcome = .ok outcome)
    (unmatched : ∀ next s, rule.run (d.subject host source stop) false start (fresh α world) ≠
      .ok (some next) s) :
    (outcome = .notParsed ∨ outcome = .aborted) ∧
      0 < (d.parse host rule source start stop world).driver.lastReport.errors := by
  have ends := announced_charged (m := d.monitor host source stop) d.restatement
    (body_charged accepted unmatched)
  rw [parse_eq idle accepted] at returned ⊢
  obtain ⟨s, finished, how, charged⟩ := close_ok ends returned
  rw [finished, lastReport]
  exact ⟨how, by simpa [close, idle] using charged⟩

/-- Where the sink stays in worlds of one kind and every replay from there returns, the parse
replays the derivation that is judged, or ends without a match in a world of that kind. -/
theorem parse_replayed (balanced : rule.Balanced) (idle : d.busy = false)
    (accepted : refuse? source.size start stop = none) {P : σ → Prop}
    (keeps : ∀ world notice, P world → P (host.sink d.inside world notice).1) (initial : P world)
    {Q : List (Tree α) → σ → Prop}
    (replays : ∀ forest before, P before → ∃ after,
      host.replay d.inside forest before = .ok (verdict forest) after ∧ Q forest after)
    (returned : (d.parse host rule source start stop world).outcome = .ok outcome) :
    let ended := (d.parse host rule source start stop world).world
    (∃ next forest, Derives source (min stop source.size) rule start next forest ∧
      outcome = .classify (verdict forest) (next == min stop source.size) ∧ Q forest ended) ∨
    ((outcome = .notParsed ∨ outcome = .aborted) ∧ P ended) := by
  intro ended
  by_cases matched : ∃ next s, rule.run (d.subject host source stop) false start (fresh α world) =
    .ok (some next) s
  · obtain ⟨next, s, run⟩ := matched
    obtain ⟨empty, forest, derives, -, read⟩ := root_matched balanced accepted run
    obtain ⟨after, replayed, given⟩ := replays forest _ (run_confined keeps initial run)
    have parsed := parse_matched idle accepted run empty read replayed
    have same : ended = after := congrArg (·.world) parsed
    rw [parsed] at returned
    exact .inl ⟨next, forest, derives, (Except.ok.inj returned).symm, same ▸ given⟩
  · have unmatched (next s) : rule.run (d.subject host source stop) false start (fresh α world) ≠
        .ok (some next) s := fun run => matched ⟨next, s, run⟩
    obtain ⟨unjudged, -⟩ := parse_unjudged idle accepted returned unmatched
    exact .inr ⟨unjudged, parse_confined keeps initial idle accepted unmatched⟩

/-- Where a parse ends for want of a match, the root rule has been tried to the end. -/
theorem run_of_notParsed (idle : d.busy = false)
    (accepted : refuse? source.size start stop = none)
    (returned : (d.parse host rule source start stop world).outcome = .ok .notParsed)
    (unmatched : ∀ next s, rule.run (d.subject host source stop) false start (fresh α world) ≠
      .ok (some next) s) :
    ∃ s, rule.run (d.subject host source stop) false start (fresh α world) = .ok none s := by
  rw [parse_eq idle accepted] at returned
  unfold announced body at returned
  rw [bind_apply] at returned
  rcases run : rule.run (d.subject host source stop) false start (fresh α world) with
    ⟨_ | next, s⟩ | ⟨errors | fault, s⟩
  · exact ⟨s, rfl⟩
  · exact absurd run (unmatched next s)
  · simp only [run, bind_apply] at returned
    rcases told : Matching.onDiagnostics (α := α)
      (Diagnostics.announceAbort (d.monitor host source stop) d.restatement) s with
      ⟨_, s'⟩ | ⟨_ | _, s'⟩ <;> simp only [told] at returned <;> cases returned
  · simp only [run] at returned
    cases returned

/-- A parse that returns has judged the one derivation of its range, or there is none, or its budget
is used up. -/
theorem parse_ends (balanced : rule.Balanced) (idle : d.busy = false)
    (accepted : refuse? source.size start stop = none) (judges : host.Judges verdict)
    (returned : (d.parse host rule source start stop world).outcome = .ok outcome) :
    (∃ next forest, Derives source (min stop source.size) rule start next forest ∧
      outcome = .classify (verdict forest) (next == min stop source.size)) ∨
    (outcome = .notParsed ∧
      ∀ next forest, ¬ Derives source (min stop source.size) rule start next forest) ∨
    outcome = .aborted := by
  by_cases matched : ∃ next s, rule.run (d.subject host source stop) false start (fresh α world) =
    .ok (some next) s
  · obtain ⟨next, s, run⟩ := matched
    obtain ⟨forest, derives, -, judged, -⟩ :=
      parse_judged balanced idle accepted judges returned run
    exact .inl ⟨next, forest, derives, judged⟩
  · have unmatched (next s) : rule.run (d.subject host source stop) false start (fresh α world) ≠
        .ok (some next) s := fun run => matched ⟨next, s, run⟩
    obtain ⟨rfl | rfl, -⟩ := parse_unjudged idle accepted returned unmatched
    · obtain ⟨s, run⟩ := run_of_notParsed idle accepted returned unmatched
      obtain ⟨t, evaluation⟩ := evaluates_of_run accepted run
      exact .inr (.inl ⟨rfl, fun next forest derives => derives.not_fails evaluation.recognizes⟩)
    · exact .inr (.inr rfl)

/-- The course of a parse whose root rule does not match. -/
theorem course_unjudged (balanced : rule.Balanced) (idle : d.busy = false)
    (accepted : refuse? source.size start stop = none)
    (unmatched : ∀ next s, rule.run (d.subject (scribe verdict) source stop) false start
      (fresh α []) ≠ .ok (some next) s) :
    ∃ course : Course α, course.Fits d rule source start stop verdict ∧ course.forest? = none ∧
      (course.outcome = .notParsed ∨ course.outcome = .aborted) := by
  obtain ⟨messages, driver, outcome, fits⟩ := course_unmatched balanced idle accepted unmatched
  obtain ⟨notices, -, parsed⟩ := fits _ (scribe verdict) (fun _ _ _ => nofun)
    (fun forest notices => ⟨notices, rfl⟩) []
  have returned := congrArg (·.outcome) parsed
  exact ⟨_, fits, rfl, (parse_unjudged idle accepted returned unmatched).1⟩

/-- The course of a parse, with the journal that it replays if it ends in a verdict. -/
theorem parse_course (balanced : rule.Balanced) (idle : d.busy = false)
    (accepted : refuse? source.size start stop = none) (verdict : List (Tree α) → Bool) :
    ∃ course : Course α, course.Fits d rule source start stop verdict ∧
      ((∃ next forest, Derives source (min stop source.size) rule start next forest ∧
          course.forest? = some forest ∧
          course.outcome = .classify (verdict forest) (next == min stop source.size)) ∨
        course.forest? = none ∧ (course.outcome = .notParsed ∨ course.outcome = .aborted)) := by
  by_cases matched : ∃ next s, rule.run (d.subject (scribe verdict) source stop) false start
    (fresh α []) = .ok (some next) s
  · obtain ⟨next, s, run⟩ := matched
    obtain ⟨forest, derives, fits⟩ := course_matched balanced idle accepted run
    exact ⟨_, fits, .inl ⟨next, forest, derives, rfl, rfl⟩⟩
  · obtain ⟨course, fits, ended⟩ := course_unjudged balanced idle accepted
      fun next s run => matched ⟨next, s, run⟩
    exact ⟨course, fits, .inr ended⟩

/-- The errors and the defects of a match of the root rule are as its outlook promises. -/
theorem root_keeps (balanced : rule.Balanced) (graded : rule.Graded)
    (accepted : refuse? source.size start stop = none) (blanks : CharSet) (isDefect : α → Bool)
    {next : Nat} {s : Matching σ α} (h : Evaluates (d.subject host source stop) .attempt rule false
      start (fresh α world) t (.ok (some next) s)) {forest : List (Tree α)}
    (derives : Derives source (min stop source.size) rule start next forest) :
    ∃ head after, (rule.outlook blanks isDefect).Matched head after
      (errorsSent (d.subject host source stop) t) (Tree.defects isDefect forest) := by
  have bounded := d.subject_bounded host source stop
  have inside := start_inside accepted d host
  have sends := h.sends balanced graded bounded inside .empty
  obtain ⟨f, derives', matched⟩ := h.keeps blanks isDefect bounded inside sends
  obtain rfl : f = forest := derives.unique derives'
  exact ⟨_, _, matched⟩

/-- Where a match has a defect just when it sends an error, a good outcome means that none was
reported. -/
theorem parse_agrees (balanced : rule.Balanced) (graded : rule.Graded) (idle : d.busy = false)
    (accepted : refuse? source.size start stop = none) (judges : host.Judges verdict)
    {isDefect : α → Bool}
    (valid : ∀ forest, verdict forest = true ↔ Tree.defects isDefect forest = 0) {blanks : CharSet}
    (owned : (rule.outlook blanks isDefect).owned = true)
    (told : (rule.outlook blanks isDefect).told = true)
    (returned : (d.parse host rule source start stop world).outcome = .ok outcome) :
    (outcome.isGood = true ∨ outcome = .notValid ∨ outcome = .notParsed ∨ outcome = .aborted) ∧
    (outcome.isGood = true ↔
      (d.parse host rule source start stop world).driver.lastReport.errors = 0) ∧
    ∀ t r, Evaluates (d.subject host source stop) .attempt rule false start (fresh α world) t r →
      outcome.isGood = true → errorsSent (d.subject host source stop) t = 0 := by
  let subject := d.subject host source stop
  let parsed := d.parse host rule source start stop world
  by_cases matched : ∃ next s, rule.run subject false start (fresh α world) = .ok (some next) s
  · obtain ⟨next, s, run⟩ := matched
    obtain ⟨forest, derives, -, rfl, reports⟩ :=
      parse_judged balanced idle accepted judges returned run
    obtain ⟨t, evaluation⟩ := evaluates_of_run accepted run
    obtain ⟨_, _, kept⟩ := root_keeps balanced graded accepted blanks isDefect evaluation derives
    have agrees : (Outcome.classify (verdict forest) (next == min stop source.size)).isGood = true ↔
        parsed.driver.lastReport.errors = 0 := by
      rw [Outcome.isGood_classify, valid, kept.clean_iff owned told, reports t evaluation]
    refine ⟨?_, agrees, fun t r evaluated good => ?_⟩
    · exact (Classical.em _).imp id fun bad => .inl (Outcome.classify_of_not_isGood bad)
    · have same : rule.run subject false start (fresh α world) = r :=
        evaluated.verdict_eq (d.subject_bounded host source stop) (start_inside accepted d host)
      obtain rfl : r = .ok (some next) s := same.symm.trans run
      exact (reports t evaluated).trans (agrees.mp good)
  · have unmatched (next s) : rule.run subject false start (fresh α world) ≠ .ok (some next) s :=
      fun run => matched ⟨next, s, run⟩
    obtain ⟨how, reported⟩ := parse_unjudged idle accepted returned unmatched
    have bad : ¬ outcome.isGood = true := by
      rcases how with rfl | rfl <;> decide
    have loud : ¬ parsed.driver.lastReport.errors = 0 := Nat.ne_of_gt reported
    exact ⟨.inr (.inr how), iff_of_false bad loud, fun _ _ _ good => absurd good bad⟩

end Driver

theorem Verdict.ok_of_position? {r : Verdict σ α} {next : Nat} (matched : r.position? = some next) :
    ∃ s, r = .ok (some next) s := by
  rcases r with ⟨m, s⟩ | ⟨stop, s⟩
  · exact ⟨s, congrArg (EStateM.Result.ok · s) matched⟩
  · cases matched

theorem Derives.at_end {rule : Rule α} {source : Source} {stop pos next : Nat}
    {f : List (Tree α)} (h : Derives source stop (rule ++ .endOfInput) pos next f) :
    next = (inputUpTo source stop).length := by
  cases h with
  | leaf found => simp [Rule.leaf?] at found
  | seq _ last =>
    cases last with
    | leaf found =>
      simp only [Rule.leaf?, Option.some.injEq] at found
      split at found <;> simp_all

namespace Xml

theorem Client.judges (client : Client σ) (shown : Driver → Parser) (construct : Construct) :
    (client.besideFlags shown construct).Judges (·.all isValid) :=
  fun _ _ => .bind fun _ => .bind fun _ => .pure

/-- A client that never gives up is answered. -/
theorem Client.Calm.answered {client : Client σ} (calm : client.Calm) (p : Parser)
    (construct : Construct) (source : Source) (world : σ) :
    ∃ outcome, (p.parse construct source client world).outcome = .ok outcome := by
  obtain ⟨-, -, answered, -⟩ := p.unswayed construct source world calm
  rw [p.parse_logged construct source client world]
  exact answered

theorem Construct.graded (construct : Construct) : construct.rule.Graded := by
  cases construct <;> rfl

/-- What each construct promises: a match has a defect just where it has sent an error. Blanks do
not count at the beginning, as both a definition of an attribute list and the end of the list may
begin with them. -/
theorem Construct.owned_told (construct : Construct) :
    let o := construct.rule.outlook whitespace (· == .invalid)
    o.owned = true ∧ o.told = true := by
  cases construct <;> exact ⟨rfl, rfl⟩

end Xml

namespace Config

theorem Client.judges (client : Client σ) (shown : Driver → Parser) :
    (client.besideFlag shown).Judges (·.all isValid) := by
  refine fun _ _ => .bind fun delivery => .bind fun _ => ?_
  obtain ⟨_ | _⟩ := delivery
  · exact .bind fun _ => .pure
  · exact .pure

/-- A client that never gives up is answered. -/
theorem Client.Calm.answered {client : Client σ} (calm : client.Calm) (p : Parser)
    (source : Source) (start stop : Nat) (world : σ) :
    ∃ outcome, (p.parseRange source start stop client world).outcome = .ok outcome := by
  obtain ⟨-, -, answered, -⟩ := p.unswayed source start stop world calm
  rw [p.parse_logged source start stop client world]
  exact answered

theorem Grammar.graded (policy : Policy) : (root policy).Graded := by
  obtain ⟨_, _, _, _, _, _, _, alnumNames, quotedValues, _⟩ := policy
  cases alnumNames <;> cases quotedValues <;> rfl

/-- A match sends one error for each defect. -/
theorem Grammar.net_zero (policy : Policy) :
    ((root policy).outlook .empty isDefect).net = some 0 := by
  obtain ⟨_, _, _, _, _, _, _, alnumNames, quotedValues, _⟩ := policy
  cases alnumNames <;> cases quotedValues <;> rfl

end Config

/-- The verdict of a parser of XML constructs agrees with its report. A client that never gives up
gets one of the good outcomes just where the report counts no error, and the errors of attempts that
were taken back count too: a good outcome means that no effect of the match has sent one. -/
theorem parse_good_iff (p : Xml.Parser) (construct : Xml.Construct) (source : Source)
    (client : Xml.Client σ) (world : σ) (idle : p.driver.busy = false) (filled : 0 < source.size)
    (calm : client.Calm) :
    let parsed := p.parse construct source client world
    let host := client.besideFlags (fun driver => { p with driver }) construct
    let subject := p.driver.subject host source source.size
    let s := Driver.fresh Xml.Action (p.valid, world)
    ∃ outcome, parsed.outcome = .ok outcome ∧
      (outcome.isGood = true ∨ outcome = .notValid ∨ outcome = .notParsed ∨ outcome = .aborted) ∧
      (outcome.isGood = true ↔ parsed.parser.driver.lastReport.errors = 0) ∧
      (∃ t r, Evaluates subject .attempt construct.rule false 0 s t r) ∧
      ∀ t r, Evaluates subject .attempt construct.rule false 0 s t r →
        outcome.isGood = true → errorsSent subject t = 0 := by
  intro parsed host subject s
  have accepted : Driver.refuse? source.size 0 source.size = none := by
    unfold Driver.refuse?
    grind
  have bounded : subject.Bounded := p.driver.subject_bounded host source source.size
  obtain ⟨outcome, answered⟩ := calm.answered p construct source world
  obtain ⟨owned, told⟩ := construct.owned_told
  obtain ⟨ending, agrees, silent⟩ :=
    Driver.parse_agrees (Shipped.construct construct).balanced construct.graded idle accepted
      (client.judges _ construct) Tree.all_valid_iff owned told answered
  obtain ⟨t, evaluation⟩ := construct.rule.evaluates bounded false 0 s (Nat.zero_le _)
  exact ⟨outcome, answered, ending, agrees, ⟨t, _, evaluation⟩, silent⟩

/-- A double-quoted value that ends inside a reference. Two errors are sent before the attempt at
the value is taken back, and two as the value is skipped. -/
theorem parse_good_iff_attributeValue :
    let source : Source := #[0x22, 0x26, 0]
    let parsed := ({} : Xml.Parser).parse .attributeValue source .deaf ()
    ({} : Xml.Parser).driver.busy = false ∧ 0 < source.size ∧ Xml.Client.deaf.Calm ∧
    parsed.parser.driver.lastReport.errors = 4 ∧
    ∃ outcome, parsed.outcome = .ok outcome ∧ outcome.isGood = false := by
  intro source parsed
  have calm : Xml.Client.deaf.Calm := Xml.Parser.deaf_calm
  have reported : parsed.parser.driver.lastReport.errors = 4 := by decide +kernel
  obtain ⟨outcome, answered, -, agrees, -⟩ :=
    parse_good_iff {} .attributeValue source .deaf () rfl (by decide) calm
  have bad : ¬ outcome.isGood = true := fun good => by
    have quiet := agrees.mp good
    exact absurd (reported.symm.trans quiet) (by decide)
  exact ⟨rfl, by decide, calm, reported, outcome, answered, by simpa using bad⟩

/-- The defects of a config file are reported one by one, in every parse that ends without a fault
(a fault leaves the report of the parse before it). Where the root rule matches, so that the journal
is replayed, it has as many defects as the report counts errors, all of which the match has sent,
and the outcome tells whether there are any. Where the root rule does not match, nothing is
replayed. -/
theorem parse_counts_defects (p : Config.Parser) (source : Source) (start stop : Nat)
    (client : Config.Client σ) (world : σ) (idle : p.driver.busy = false)
    (accepted : Driver.refuse? source.size start stop = none) :
    let parsed := p.parseRange source start stop client world
    let errors := parsed.parser.driver.lastReport.errors
    let rule := Config.Grammar.root p.policy
    let host := client.besideFlag fun driver => { p with driver }
    let subject := p.driver.subject host source stop
    let s := Driver.fresh Config.Action (p.valid, world)
    (client.Calm → ∃ outcome, parsed.outcome = .ok outcome) ∧
    ∀ outcome, parsed.outcome = .ok outcome →
      (∀ next s', rule.run subject false start s = .ok (some next) s' →
        s'.events.toList.countP (Event.marks Config.isDefect) = errors ∧
        outcome = (if errors = 0 then .allValid else .notValid) ∧
        (∃ forest, Derives source (min stop source.size) rule start next forest ∧
          s'.events.toList = Tree.eventsOf forest) ∧
        (∃ t, Evaluates subject .attempt rule false start s t (.ok (some next) s')) ∧
        ∀ t, Evaluates subject .attempt rule false start s t (.ok (some next) s') →
          errorsSent subject t = errors) ∧
      ((∀ next s', rule.run subject false start s ≠ .ok (some next) s') →
        outcome = .notParsed ∨ outcome = .aborted) := by
  intro parsed errors rule host subject s
  have balanced : rule.Balanced := (Shipped.config p.policy).balanced
  have judges : host.Judges (·.all Config.isValid) := client.judges _
  have bounded : subject.Bounded := p.driver.subject_bounded host source stop
  refine ⟨fun calm => calm.answered p source start stop world, fun outcome returned => ⟨?_, ?_⟩⟩
  · intro next s' run
    obtain ⟨forest, derives, events, rfl, reports⟩ :=
      Driver.parse_judged balanced idle accepted judges returned run
    obtain ⟨t, evaluation⟩ := Driver.evaluates_of_run accepted run
    obtain ⟨_, _, kept⟩ := Driver.root_keeps balanced (Config.Grammar.graded p.policy) accepted
      .empty Config.isDefect evaluation derives
    have even := kept.even (Config.Grammar.net_zero p.policy)
    have count : Tree.defects Config.isDefect forest = errors :=
      even.symm.trans (reports t evaluation)
    have judged : forest.all Config.isValid = true ↔ errors = 0 := by
      rw [← count]
      exact Tree.all_valid_iff forest
    have atEnd : next = min stop source.size := derives.at_end.trans bounded.length_input
    refine ⟨?_, ?_, ⟨forest, derives, events⟩, ⟨t, evaluation⟩, reports⟩
    · rw [events]
      exact count
    · rw [atEnd, beq_self_eq_true, Outcome.classify_atEnd]
      simp only [judged]
  · intro unmatched
    exact (Driver.parse_unjudged idle accepted returned unmatched).1

/-- A key with a value whose quote is never closed, which is one defect. -/
theorem parse_counts_defects_quote :
    let p := Config.Parser.build { quotedValues := true }
    let source : Source := #[0x6B, 0x3D, 0x22]
    let host := Config.Client.deaf.besideFlag fun driver => { p with driver }
    let subject := p.driver.subject host source 3
    let s := Driver.fresh Config.Action (p.valid, ())
    let parsed := p.parseRange source 0 3 .deaf ()
    p.driver.busy = false ∧ Driver.refuse? source.size 0 3 = none ∧
    parsed.outcome = .ok .notValid ∧
    ∃ s', (Config.Grammar.root p.policy).run subject false 0 s = .ok (some 3) s' ∧
      s'.events.toList.countP (Event.marks Config.isDefect) = 1 := by
  intro p source host subject s parsed
  have accepted : Driver.refuse? source.size 0 3 = none := by decide
  have reported : parsed.parser.driver.lastReport.errors = 1 := by decide +kernel
  have matched : Verdict.position? ((Config.Grammar.root p.policy).run subject false 0 s) =
      some 3 := by decide +kernel
  obtain ⟨s', run⟩ := Verdict.ok_of_position? matched
  obtain ⟨answered, replayed⟩ := parse_counts_defects p source 0 3 .deaf () rfl accepted
  obtain ⟨outcome, returned⟩ := answered Config.Parser.deaf_calm
  obtain ⟨count, rfl, -⟩ := (replayed outcome returned).1 3 s' run
  have failed : ¬ parsed.parser.driver.lastReport.errors = 0 := by omega
  exact ⟨rfl, accepted, returned.trans (congrArg Except.ok (if_neg failed)), s', run,
    count.trans reported⟩

end Backtrack
