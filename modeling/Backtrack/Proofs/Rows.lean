import Backtrack.Proofs.Headers

/-! A config file row by row. Each row is the content of a line with what it leaves in the journal,
the header that was found in it, if any, and the errors that it sends. Matching the root rule reads
the whole file in rows, and what a scribe writes down are the errors of the rows in order, each
introduced by the scope that its row leaves behind. -/
namespace Backtrack.Config

open Grammar

variable {σ : Type}

structure Row where
  start : Nat
  stop : Nat
  forest : List (Tree Action)
  heading : Option Heading := none
  errors : List Notice

namespace Grammar

/-- A comment at the beginning of a line. -/
def comment (p : Policy) : ConfigRule := blockComment p ||| lineComment p

theorem content_eq (p : Policy) : content p =
    .choice (.choice (.choice (comment p) (sectionHeader p)) (keyValue p)) badLine := rfl

end Grammar

/-- What the row says is how its bytes are read. A header is found where no comment begins. -/
structure Row.Reads (p : Policy) (source : Source) (stop : Nat) (lines : LineIndex) (row : Row) :
    Prop where
  inside : row.start ≤ (inputUpTo source stop).length
  solid : Recognizes (inputUpTo source stop) gap row.start none
  derives : Derives source stop (content p) row.start row.stop row.forest
  header : ∀ heading, row.heading = some heading →
    Recognizes (inputUpTo source stop) (comment p) row.start none ∧
    Heads p source (inputUpTo source stop) row.start heading row.stop ∧
    row.errors = heading.errors lines row.start
  headless : row.heading = none →
    (∃ next, Recognizes (inputUpTo source stop) (comment p) row.start (some next)) ∨
      Recognizes (inputUpTo source stop) (sectionHeader p) row.start none
  stray : row.heading = none → Recognizes (inputUpTo source stop) (comment p) row.start none →
    Recognizes (inputUpTo source stop) (keyValue p) row.start none →
    row.errors = [⟨badContent, lines.line row.start⟩]
  errors : ∀ e ∈ row.errors, e.level.isError = true
  counts : row.errors.length = Tree.defects isDefect row.forest

/-- The scopes behind a row. -/
def Row.enter (lines : LineIndex) (crumbs : Breadcrumbs) (row : Row) : Breadcrumbs :=
  row.heading.elim crumbs (·.enter lines crumbs)

/-- From `pos` on stand these rows, each behind blanks and line breaks, and more of these up to the
end. -/
inductive Rows (p : Policy) (source : Source) (stop : Nat) (lines : LineIndex) :
    Nat → List Row → Prop where
  | ends {pos} :
      Recognizes (inputUpTo source stop) spacing pos (some (inputUpTo source stop).length) →
      Rows p source stop lines pos []
  | more {pos row rows} : Recognizes (inputUpTo source stop) spacing pos (some row.start) →
      row.Reads p source stop lines → Rows p source stop lines row.stop rows →
      Rows p source stop lines pos (row :: rows)

/-- What a scribe hears of these rows. -/
def Row.told (lines : LineIndex) : Breadcrumbs → List Row → List Notice
  | _, [] => []
  | crumbs, row :: rows =>
    let behind := row.enter lines crumbs
    row.errors.flatMap behind.packet ++ told lines behind rows

section Evaluation

variable {p : Policy} {subject : Subject σ} {pos next : Nat} {s s' : Matching σ Action}
  {t : List (Performance σ)}

/-- A failure of the rule sends no error. -/
def Discreet (rule : ConfigRule) : Prop := (rule.outlook .empty isDefect).discreet = true

theorem comment_discreet (p : Policy) : Discreet (comment p) := rfl

theorem comment_scopeless (p : Policy) : (comment p).Scopeless := rfl

theorem badLine_scopeless : badLine.Scopeless := rfl

theorem content_discreet (p : Policy) :
    Discreet (content p) ∧ Discreet (.choice (comment p) (sectionHeader p)) ∧
      Discreet (.choice (.choice (comment p) (sectionHeader p)) (keyValue p)) := by
  obtain ⟨_, _, _, _, _, _, _, alnumNames, quotedValues, _⟩ := p
  cases alnumNames <;> cases quotedValues <;> exact ⟨rfl, rfl, rfl⟩

theorem root_claimless (p : Policy) : (root p).allEffects (!·.claims) = true := by
  obtain ⟨_, _, _, _, _, _, _, alnumNames, quotedValues, _⟩ := p
  cases alnumNames <;> cases quotedValues <;> rfl

theorem content_net_zero (p : Policy) : ((content p).outlook .empty isDefect).net = some 0 := by
  obtain ⟨_, _, _, _, _, _, _, alnumNames, quotedValues, _⟩ := p
  cases alnumNames <;> cases quotedValues <;> rfl

theorem keyValue_scopeless (p : Policy) : (keyValue p).Scopeless := by
  obtain ⟨_, _, _, _, _, _, _, alnumNames, quotedValues, _⟩ := p
  cases alnumNames <;> cases quotedValues <;> rfl

theorem quiet_failure {rule : ConfigRule} (discreet : Discreet rule) (bounded : subject.Bounded)
    (inside : pos ≤ subject.stop) (forthright : Forthright subject t)
    (h : Evaluates subject .attempt rule false pos s t (.ok none s')) :
    noticesSent subject t = [] := by
  have failed : Outlook.Failed .. :=
    h.keeps .empty isDefect bounded inside fun p member => (forthright p member).1
  have none := forthright.errors.2.trans (failed.discreet discreet)
  exact List.eq_nil_of_length_eq_zero none

/-- Where no header is read and no comment, no scope is touched. -/
theorem unheaded_crumbs (bounded : subject.Bounded) (inside : pos ≤ subject.stop)
    (h : Evaluates subject .attempt (.choice (comment p) (sectionHeader p)) false pos s t
      (.ok none s')) :
    s'.diagnostics.crumbs = s.diagnostics.crumbs := by
  obtain ⟨s₁, u, v, s₂, comments, header, rfl, rewound⟩ := h.choice_none
  have before := (comments.scopeless (comment_scopeless p)).2
  rw [rewound, Diagnostics.rewind_crumbs]
  exact (header_told_none bounded inside header).trans before

/-- A line that no rule reads sends one error. -/
theorem badLine_told (bounded : subject.Bounded) (inside : pos ≤ subject.stop)
    (h : Evaluates subject .attempt badLine false pos s t (.ok (some next) s')) :
    noticesSent subject t = [⟨badContent, subject.monitor.lines.line pos⟩] := by
  obtain ⟨s₀, s₁, told, -, -⟩ := h.action_some
  have onward := (told.onward bounded inside).1
  obtain ⟨-, within, rfl, -⟩ := told.lone_effect_some bounded inside (by rfl)
  have stops := Nat.min_eq_left (Nat.le_trans within bounded)
  simp [noticesSent, Performance.sent?, Span.between, Span.clamp, onward, stops, badContent]

/-- What a row begins with. -/
theorem content_cases (bounded : subject.Bounded) (inside : pos ≤ subject.stop)
    (forthright : Forthright subject t)
    (h : Evaluates subject .attempt (content p) false pos s t (.ok (some next) s')) :
    let lines := subject.monitor.lines
    let notices := noticesSent subject t
    (∃ heading, Recognizes subject.input (comment p) pos none ∧
      Heads p subject.source subject.input pos heading next ∧ notices = heading.errors lines pos ∧
      t.flatMap (·.packet subject) =
        notices.flatMap (heading.enter lines s.diagnostics.crumbs).packet ∧
      s'.diagnostics.crumbs = heading.enter lines s.diagnostics.crumbs) ∨
    ((∃ after, Recognizes subject.input (comment p) pos (some after)) ∨
        Recognizes subject.input (sectionHeader p) pos none) ∧
      (Recognizes subject.input (comment p) pos none →
        Recognizes subject.input (keyValue p) pos none →
        notices = [⟨badContent, lines.line pos⟩]) ∧
      t.flatMap (·.packet subject) = notices.flatMap s.diagnostics.crumbs.packet ∧
      s'.diagnostics.crumbs = s.diagnostics.crumbs := by
  intro lines notices
  have plain {rule : ConfigRule} {s₁ s₂ : Matching σ Action} {u v : List (Performance σ)}
      (scopeless : rule.Scopeless) (quiet : noticesSent subject u = [])
      (before : s₁.diagnostics.crumbs = s.diagnostics.crumbs)
      (behind : Evaluates subject .attempt rule false pos s₁ v (.ok (some next) s₂)) :
      (u ++ v).flatMap (·.packet subject) =
          (noticesSent subject (u ++ v)).flatMap s.diagnostics.crumbs.packet ∧
        s₂.diagnostics.crumbs = s.diagnostics.crumbs := by
    rw [(noticesSent_behind quiet).1, (noticesSent_behind quiet).2, ← before]
    exact behind.scopeless scopeless
  obtain ⟨_, quietHeader, quietPair⟩ := content_discreet p
  rw [content_eq] at h
  obtain ⟨s₁, left, settled⟩ | ⟨s₁, u, v, s₂, left, bad, rfl, settled⟩ := h.choice_some
  · obtain ⟨s₂, first, settled₂⟩ | ⟨s₂, u, v, s₃, first, pair, rfl, settled₂⟩ := left.choice_some
    · obtain ⟨s₃, comments, settled₃⟩ | ⟨s₃, u, v, s₄, comments, header, rfl, settled₃⟩ :=
        first.choice_some
      · right
        rw [settled, Diagnostics.settle, settled₂, Diagnostics.settle, settled₃]
        exact ⟨.inl ⟨next, comments.recognizes⟩,
          fun uncommented =>
            absurd (comments.recognizes.unique uncommented) (Option.some_ne_none _),
          comments.scopeless (comment_scopeless p)⟩
      · left
        have quiet := quiet_failure (comment_discreet p) bounded inside
          (Forthright.append_iff.mp forthright).1 comments
        obtain ⟨heading, heads, sent, packets, entered⟩ :=
          header_told_some bounded inside header
        rw [(comments.scopeless (comment_scopeless p)).2] at packets entered
        refine ⟨heading, comments.recognizes, heads, (noticesSent_behind quiet).1.trans sent, ?_, ?_⟩
        · rw [(noticesSent_behind quiet).2, packets, ← (noticesSent_behind quiet).1]
        · rw [settled, Diagnostics.settle, settled₂, Diagnostics.settle, settled₃,
            Diagnostics.settle, entered]
    · right
      have quiet := quiet_failure quietHeader bounded inside
        (Forthright.append_iff.mp forthright).1 first
      rw [settled, Diagnostics.settle, settled₂]
      exact ⟨.inr (Recognizes.choice_none_iff.mp first.recognizes).2,
        fun _ unpaired => absurd (pair.recognizes.unique unpaired) (Option.some_ne_none _),
        plain (keyValue_scopeless p) quiet (unheaded_crumbs bounded inside first) pair⟩
  · right
    have quiet := quiet_failure quietPair bounded inside (Forthright.append_iff.mp forthright).1 left
    obtain ⟨s₃, _, _, s₄, first, pair, -, rewound⟩ := left.choice_none
    have before : s₁.diagnostics.crumbs = s.diagnostics.crumbs := by
      rw [rewound, Diagnostics.rewind_crumbs]
      rw [(pair.scopeless (keyValue_scopeless p)).2, unheaded_crumbs bounded inside first]
    rw [settled]
    exact ⟨.inr (Recognizes.choice_none_iff.mp first.recognizes).2,
      fun _ _ => (noticesSent_behind quiet).1.trans (badLine_told bounded inside bad),
      plain badLine_scopeless quiet before bad⟩

/-- The content of a line is a row. -/
theorem content_told (bounded : subject.Bounded) (inside : pos ≤ subject.stop)
    (forthright : Forthright subject t) (solid : Recognizes subject.input gap pos none)
    (h : Evaluates subject .attempt (content p) false pos s t (.ok (some next) s')) :
    let lines := subject.monitor.lines
    ∃ row : Row, row.start = pos ∧ row.stop = next ∧
      row.Reads p subject.source subject.stop lines ∧
      t.flatMap (·.packet subject) =
        row.errors.flatMap (row.enter lines s.diagnostics.crumbs).packet ∧
      s'.diagnostics.crumbs = row.enter lines s.diagnostics.crumbs := by
  intro lines
  obtain ⟨f, derives, matched⟩ :=
    h.keeps .empty isDefect bounded inside fun p member => (forthright p member).1
  obtain ⟨errors, count⟩ := forthright.errors
  have counts := count.trans (matched.even (content_net_zero p))
  have within : pos ≤ (inputUpTo subject.source subject.stop).length :=
    (bounded.length_input.symm ▸ inside :)
  obtain ⟨heading, noComment, heads, same, packets, entered⟩ | ⟨headless, stray, packets, entered⟩ :=
    content_cases bounded inside forthright h
  · refine ⟨⟨pos, next, f, some heading, noticesSent subject t⟩, rfl, rfl, ?_, packets, entered⟩
    exact ⟨within, solid, derives, fun _ found => Option.some.inj found ▸ ⟨noComment, heads, same⟩,
      nofun, nofun, errors, counts⟩
  · refine ⟨⟨pos, next, f, none, noticesSent subject t⟩, rfl, rfl, ?_, packets, entered⟩
    exact ⟨within, solid, derives, nofun, fun _ => headless, fun _ => stray, errors, counts⟩

theorem line_discreet (p : Policy) : Discreet (line p) := by
  obtain ⟨_, _, _, _, _, _, _, alnumNames, quotedValues, _⟩ := p
  cases alnumNames <;> cases quotedValues <;> rfl

/-- Behind all blanks and line breaks there is neither. -/
theorem gap_fails {input : Bytes} {first : Nat} (inside : pos ≤ input.length)
    (before : Recognizes input spacing first (some pos)) : Recognizes input gap pos none := by
  obtain ⟨m, last, rfl | rfl⟩ := before.many_stops
  · exact last
  · exact absurd (last.eats inside gap_eats) (Nat.lt_irrefl _)

/-- Lines are read in rows, and what they send is what the rows tell. -/
theorem lines_told (filled : p.Filled) (bounded : subject.Bounded) {first : Nat}
    (inside : pos ≤ subject.stop) (forthright : Forthright subject t)
    (before : Recognizes subject.input spacing first (some pos))
    (h : Evaluates subject .body (.many (line p)) false pos s t (.ok (some next) s'))
    (atEnd : next = subject.input.length) :
    ∃ rows, Rows p subject.source subject.stop subject.monitor.lines first rows ∧
      t.flatMap (·.packet subject) =
        Row.told subject.monitor.lines s.diagnostics.crumbs rows := by
  generalize repeated : Rule.many (line p) = rule at h
  generalize loud : false = silent at h
  generalize staged : Stage.body = stage at h
  generalize returned : EStateM.Result.ok (some next) s' = r at h
  induction h generalizing first with
  | manyEnd once last =>
    cases repeated
    cases returned
    rcases last with rfl | rfl
    · have quiet := quiet_failure (line_discreet p) bounded inside forthright (loud ▸ once)
      exact ⟨[], .ends (atEnd ▸ before), packets_of_quiet quiet⟩
    · have within := bounded.length_input.symm ▸ inside
      exact absurd (once.recognizes.eats within filled.line_eats) (Nat.lt_irrefl _)
  | manyNext once _ _ _ ih =>
    cases repeated
    subst loud
    obtain ⟨mine, later⟩ := Forthright.append_iff.mp forthright
    have onward := (once.onward bounded inside).2
    rw [line_eq] at once
    obtain ⟨mid, s₂, u, v, s₃, here, spaces, rfl, settled⟩ := once.seq_some
    have within := bounded.length_input.symm ▸ inside
    obtain ⟨row, rfl, rfl, reads, packets, entered⟩ := content_told bounded inside
      (Forthright.append_iff.mp mine).1 (gap_fails within before) here
    obtain ⟨rfl, same⟩ := spaces.effectless (by rfl)
    obtain ⟨rows, rest, told⟩ := ih onward later spaces.recognizes rfl rfl rfl returned
    refine ⟨row :: rows, .more before reads rest, ?_⟩
    rw [List.append_nil, List.flatMap_append, packets, told, settled, Diagnostics.settle,
      same _ _ rfl, entered]
    rfl
  | manyStop => cases returned
  | leaf found =>
    subst repeated
    simp [Rule.leaf?] at found
  | close => cases staged
  | _ => cases repeated

/-- The whole file is read in rows. -/
theorem root_told (filled : p.Filled) (bounded : subject.Bounded) (inside : pos ≤ subject.stop)
    (forthright : Forthright subject t)
    (h : Evaluates subject .attempt (root p) false pos s t (.ok (some next) s')) :
    ∃ rows, Rows p subject.source subject.stop subject.monitor.lines pos rows ∧
      t.flatMap (·.packet subject) =
        Row.told subject.monitor.lines s.diagnostics.crumbs rows := by
  rw [root_eq] at h
  obtain ⟨mid, s₁, u, v, s₂, body, last, rfl, -⟩ := h.seq_some
  obtain ⟨first, s₃, w, x, s₄, spaces, lines, rfl, -⟩ := body.seq_some
  have onward := (spaces.onward bounded inside).2
  have within := bounded.length_input.symm ▸ onward
  obtain ⟨rfl, same⟩ := spaces.effectless (by rfl)
  obtain ⟨rfl, -⟩ := last.effectless (by rfl)
  have atEnd : mid = subject.input.length := by
    have reached := (Recognizes.leaf_iff rfl).mp last.recognizes
    by_contra before
    rw [if_neg before] at reached
    cases reached
  obtain ⟨s₅, body, -⟩ := lines.body_of_some
  rw [List.append_nil, List.nil_append] at forthright ⊢
  obtain ⟨rows, read, told⟩ := lines_told filled bounded onward forthright spaces.recognizes body atEnd
  exact ⟨rows, read, by rw [told, same _ _ rfl]⟩

end Evaluation

theorem Rows.fileLines {p : Policy} {source : Source} {stop pos : Nat} {lines : LineIndex}
    {rows : List Row} (h : Rows p source stop lines pos rows) :
    FileLines p source stop pos (rows.flatMap (·.forest)) := by
  induction h with
  | ends spaces => exact .ends spaces
  | more spaces reads _ ih => exact .more spaces reads.derives ih

/-- A parse that ends in a verdict has read the file in rows. Its messages are what they tell, and
its calls are those of their journal. -/
theorem Parser.parse_rows (p : Parser) {source : Source} {client : Client σ} (world : σ)
    (idle : p.driver.busy = false) (filled : p.policy.Filled) (calm : client.Calm)
    {outcome : Outcome}
    (returned : (p.parse source client.logged { world }).outcome = .ok outcome)
    (judged : outcome = .allValid ∨ outcome = .notValid) :
    let log := (p.parse source client.logged { world }).world
    let lines := LineIndex.ofSource source
    ∃ rows, Rows p.policy source source.size lines 0 rows ∧
      UpToRefusal (Row.told lines {} rows) log.messages ∧
      UpToRefusal (allCalls p.policy (rows.flatMap (·.forest))) log.calls := by
  intro log lines
  cases accepted : Driver.refuse? source.size 0 source.size with
  | some refused =>
    rw [Parser.parse, parse_eq, Driver.parse_refused idle accepted] at returned
    have same : refused = outcome := Except.ok.inj returned
    unfold Driver.refuse? at accepted
    grind
  | none =>
  have balanced : (Grammar.root p.policy).Balanced := (Shipped.config p.policy).balanced
  have inside := Driver.start_inside accepted p.driver (Driver.scribe (·.all isValid))
  have bounded := p.driver.subject_bounded (Driver.scribe (·.all isValid)) source source.size
  obtain ⟨course, fits, ends⟩ := Driver.parse_dictated balanced idle accepted (·.all isValid)
  obtain ⟨heard, part, last, logged, messages, calls, -⟩ :=
    p.parse_log source 0 source.size world calm fits
  have ended : course.outcome = outcome :=
    Except.ok.inj ((congrArg (·.outcome) logged).symm.trans returned)
  have same : log = ⟨heard, part, last⟩ := congrArg (·.world) logged
  rw [same]
  obtain ⟨t, next, s, forest, evaluation, derives, replayed, -, dictated⟩ | ⟨-, bad⟩ := ends
  · have sends := evaluation.sends balanced (Grammar.graded p.policy) bounded inside .empty
    have own := evaluation.effects (root_claimless p.policy)
    obtain ⟨rows, read, told⟩ := root_told filled bounded inside
      (fun q member => ⟨sends q member, by simpa using own q member⟩) evaluation
    have indexed : (p.driver.subject (Driver.scribe (·.all isValid)) source source.size).monitor.lines =
        lines := congrArg LineIndex.ofSource Array.extract_size
    rw [indexed] at read told
    have read : Rows p.policy source (min source.size source.size) lines 0 rows := read
    rw [Nat.min_self] at read
    rw [Nat.min_self] at derives
    have whole := (filled.root_iff.mp derives).1 ▸ derives
    have again := filled.root_iff.mpr ⟨rfl, read.fileLines⟩
    obtain rfl := whole.unique again
    rw [dictated] at messages
    rw [replayed] at calls
    exact ⟨rows, read, told ▸ messages, calls⟩
  · rcases bad with bad | bad <;> rw [← ended, bad] at judged <;> simp at judged

end Backtrack.Config
