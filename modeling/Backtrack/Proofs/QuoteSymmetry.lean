import Backtrack.Proofs.MirroredCalls
import Backtrack.Proofs.QuotedValues
import Backtrack.Proofs.Terminators

/-! Parses of a source and of its image in the mirror that shows each quote as the other. What a
scribe hears of the one faces what the other hears, to the end of the parse, and the journals are
images of each other; so the two parses take corresponding courses with every client. -/
namespace Backtrack

variable {σ α β : Type}

namespace Driver

variable {subject subject' : Subject (List Notice)} {m m' : Monitor (List Notice)}
  {turn : α → α} {s s' : Matching (List Notice) α}

/-- What the scribes of two matches have been told. -/
def Heard (s s' : Matching (List Notice) α) : Prop := s.diagnostics.Echoes s'.diagnostics

theorem on_diagnostics_facing (s s' : Matching (List Notice) α)
    {S T : Diagnostics (List Notice) → Diagnostics (List Notice) → Prop}
    {op op' : Diagnosing (List Notice) β} (h : InStep S T (op s.diagnostics) (op' s'.diagnostics)) :
    InStep (fun s s' => S s.diagnostics s'.diagnostics) (fun s s' => T s.diagnostics s'.diagnostics)
      (Matching.onDiagnostics op s) (Matching.onDiagnostics op' s') := by
  simp only [Matching.onDiagnostics]
  generalize op s.diagnostics = r at h
  generalize op' s'.diagnostics = r' at h
  cases h with
  | ok states => exact .ok states
  | aborted states => exact .aborted states

/-- Both scribes are told what was left behind, and that nothing could be parsed. -/
theorem conclude_none_facing (faces : subject.Faces subject')
    (host host' : List (Tree α) → EStateM Fault (List Notice) Bool)
    (facing : s.Facing turn [] [] s') :
    InStep Heard Heard (conclude subject host none s) (conclude subject' host' none s') := by
  have flush := on_diagnostics_facing s s'
    (Diagnostics.flushAbandoned_facing faces.monitors facing.diagnostics)
  refine flush.bind fun _ s s' facing => ?_
  have final : Notice.Alike unfinished unfinished := ⟨rfl, rfl⟩
  have sent := on_diagnostics_facing s s'
    (Diagnostics.send_facing faces.monitors final facing)
  exact sent.bind fun _ _ _ facing => .ok facing.toEchoes

/-- What follows two matches that end without a match. -/
theorem body_facing {d : Driver} {verdict : List (Tree α) → Bool} {rule rule' : Rule α}
    {source source' : Source} {start stop start' stop' : Nat}
    (faces : (d.subject (scribe verdict) source stop).Faces
      (d.subject (scribe verdict) source' stop'))
    (unmatched : ∀ next s₁, rule.run (d.subject (scribe verdict) source stop) false start s ≠
      .ok (some next) s₁)
    (judged : Judged turn [] [] (rule.run (d.subject (scribe verdict) source stop) false start s)
      (rule'.run (d.subject (scribe verdict) source' stop') false start' s')) :
    InStep Heard Heard (d.body (scribe verdict) rule source start stop s)
      (d.body (scribe verdict) rule' source' start' stop' s') := by
  unfold body
  rw [bind_apply, bind_apply]
  generalize rule.run _ false start s = r at judged unmatched ⊢
  generalize rule'.run _ false start' s' = r' at judged ⊢
  cases judged with
  | @ok m s₁ s₁' facing =>
    cases m with
    | none => exact conclude_none_facing faces _ _ facing
    | some next => exact absurd rfl (unmatched next s₁)
  | aborted echoes => exact .aborted echoes

theorem announced_facing (monitors : m.Faces m') {body body' : MatchM (List Notice) α Outcome}
    (bodies : InStep Heard Heard (body s) (body' s')) (restatement : Option String) :
    InStep Heard Heard (announced restatement m body s) (announced restatement m' body' s') := by
  unfold announced
  generalize body s = r at bodies
  generalize body' s' = r' at bodies
  cases bodies with
  | ok heard => exact .ok heard
  | aborted heard =>
    have closing :=
      on_diagnostics_facing _ _ (Diagnostics.announceAbort_echoes monitors restatement heard)
    exact closing.bind fun _ _ _ heard => .ok heard

theorem close_facing (d : Driver) {r r' : EStateM.Result Stop (Matching (List Notice) α) Outcome}
    (h : InStep Heard Heard r r') :
    (d.close r').driver = (d.close r).driver ∧ (d.close r').outcome = (d.close r).outcome ∧
      List.Forall₂ Notice.Alike (d.close r).world (d.close r').world := by
  cases h with
  | ok heard => exact ⟨by simp only [close, heard.report], rfl, heard.world⟩
  | aborted heard => exact ⟨rfl, rfl, heard.world⟩

end Driver

namespace Xml

theorem mirrorByte_lineFeed (b : UInt8) : mirrorByte b = 0x0A ↔ b = 0x0A :=
  CharSet.every_byte (P := fun b => mirrorByte b = 0x0A ↔ b = 0x0A) (by decide +kernel) b

/-- A line feed is its own image. -/
theorem lines_mirror (source : Source) :
    LineIndex.ofSource (mirrorSource source) = LineIndex.ofSource source := by
  simp only [LineIndex.ofSource, mirrorSource, Array.foldl_map, mirrorByte_lineFeed]

variable (d : Driver) (verdict : List (Tree Action) → Bool) (source : Source)

theorem size_mirror : (mirrorSource source).size = source.size := Array.size_map ..

theorem mirrorSpan_clamp (start stop : Nat) :
    mirrorSpan (.clamp source start stop) = .clamp (mirrorSource source) start stop := by
  simp only [mirrorSpan, Span.clamp, size_mirror]

theorem mirrored :
    Mirrored (d.subject (Driver.scribe verdict) source source.size)
      (d.subject (Driver.scribe verdict) (mirrorSource source) (mirrorSource source).size) := by
  have whole (source : Source) : source.extract 0 source.size = source := Array.extract_size
  have image : (d.subject (Driver.scribe verdict) (mirrorSource source)
      (mirrorSource source).size).input = (mirrorSource source).toList := by
    change inputUpTo (mirrorSource source) (min _ _) = _
    rw [Nat.min_self, inputUpTo_size]
  have original : (d.subject (Driver.scribe verdict) source source.size).input =
      source.toList := by
    change inputUpTo source (min _ _) = _
    rw [Nat.min_self, inputUpTo_size]
  refine ⟨⟨?_, d.subject_bounded .., d.subject_bounded ..,
    ⟨fun _ _ => rfl, fun _ _ => rfl, rfl, ?_⟩⟩, ?_⟩
  · change min _ _ = min _ _
    rw [size_mirror]
  · change LineIndex.ofSource _ = LineIndex.ofSource _
    rw [whole, whole, lines_mirror]
  · rw [image, original, mirrorSource, Array.toList_map]

/-- What one course does over a source the other does over its image. -/
structure Reflects (course course' : Driver.Course Action) : Prop where
  messages : List.Forall₂ Notice.Alike course.messages course'.messages
  forest? : course'.forest? = course.forest?.map (·.map mirrorTree)
  driver : course'.driver = course.driver
  outcome : course'.outcome = course.outcome

theorem all_isValid_mirror (forest : List (Tree Action)) :
    (forest.map mirrorTree).all isValid = forest.all isValid := by
  rw [List.all_map]
  exact congrArg (List.all forest) (funext isValid_mirror)

section Courses

variable {construct : Construct} {d : Driver} {source : Source}

/-- The course over the source and the one over its image. -/
def Reflected (construct : Construct) (d : Driver) (source : Source) : Prop :=
  ∃ course course', Reflects course course' ∧
    course.Fits d construct.rule source 0 source.size (·.all isValid) ∧
    course'.Fits d construct.rule (mirrorSource source) 0 (mirrorSource source).size
      (·.all isValid) ∧
    ∀ forest, course.forest? = some forest →
      (∃ next, Derives source source.size construct.rule 0 next forest) ∧
      (course.outcome.isGood = true → forest.all isValid = true)

/-- The calls that stand for a sound journal, and those that stand for its image. -/
theorem Reflects.calls {course course' : Driver.Course Action} (reflects : Reflects course course')
    (quotable : construct ∈ Construct.quotable)
    (sound : ∀ forest, course.forest? = some forest →
      (∃ next, Derives source source.size construct.rule 0 next forest) ∧
        forest.all isValid = true) :
    ((course'.forest?.getD []).flatMap construct.items).flatMap Item.calls =
      (((course.forest?.getD []).flatMap construct.items).flatMap Item.calls).map Call.mirror := by
  rw [reflects.forest?]
  cases matched : course.forest? with
  | none => rfl
  | some forest =>
    obtain ⟨⟨next, derives⟩, valid⟩ := sound forest matched
    rw [Option.map_some, Option.getD_some, Option.getD_some,
      Construct.items_mirror quotable derives (List.all_eq_true.mp valid), mirrorItem_calls]

/-- Neither course replays anything. -/
theorem reflected_of_unmatched {course course' : Driver.Course Action}
    (reflects : Reflects course course') (unmatched : course.forest? = none)
    (fits : course.Fits d construct.rule source 0 source.size (·.all isValid))
    (fits' : course'.Fits d construct.rule (mirrorSource source) 0 (mirrorSource source).size
      (·.all isValid)) : Reflected construct d source := by
  refine ⟨course, course', reflects, fits, fits', fun forest matched => ?_⟩
  rw [unmatched] at matched
  cases matched

/-- What a scribe makes of the source. -/
def scribbled (construct : Construct) (d : Driver) (source : Source) :
    Verdict (List Notice) Action :=
  construct.rule.run (d.subject (Driver.scribe (·.all isValid)) source source.size) false 0
    (Driver.fresh Action [])

theorem scribbled_mirrored (quotable : construct ∈ Construct.quotable) (d : Driver)
    (source : Source) :
    Judged Action.mirror [] [] (scribbled construct d source)
      (scribbled construct d (mirrorSource source)) := by
  have both := mirrored d (·.all isValid) source
  obtain ⟨t, evaluation⟩ := construct.rule.evaluates both.faces.bounded false 0
    (Driver.fresh Action []) (Nat.zero_le _)
  have start : (Driver.fresh Action []).Facing Action.mirror [] [] (Driver.fresh Action []) :=
    ⟨Array.map_empty.symm, ⟨rfl, rfl, rfl, rfl, .nil⟩, .empty⟩
  have level := (Shipped.construct construct).balanced .pending
  obtain ⟨t', r', evaluation', judged⟩ :=
    both.construct quotable level (Nat.zero_le _) start (Nat.zero_le _) evaluation
  have ran : scribbled construct d (mirrorSource source) = r' :=
    evaluation'.verdict_eq both.faces.bounded' (Nat.zero_le _)
  rw [ran]
  exact judged

variable (idle : d.busy = false) (accepted : Driver.refuse? source.size 0 source.size = none)
include idle accepted

theorem reflected_of_match (quotable : construct ∈ Construct.quotable) {next : Nat}
    {s : Matching (List Notice) Action} (run : scribbled construct d source = .ok (some next) s) :
    Reflected construct d source := by
  have balanced : construct.rule.Balanced := (Shipped.construct construct).balanced
  have judged := scribbled_mirrored quotable d source
  rw [run] at judged
  obtain ⟨s', run', facing⟩ := judged.finished
  have accepted' := (size_mirror source).symm ▸ accepted
  obtain ⟨-, forest, derives, events, -⟩ := Driver.root_matched balanced accepted run
  obtain ⟨-, forest', derives', -, read⟩ := Driver.root_matched balanced accepted' run'
  -- the second journal is the image of the first, and so are the trees that it is read as
  have image : forest' = forest.map mirrorTree := by
    have whole := nests_mirror (derives.nests (Nat.zero_le _))
    have turned : s'.events.toList = Tree.eventsOf (forest.map mirrorTree) := by
      rw [facing.events, Array.toList_map, events, eventsOf_mirror]
    rw [turned, whole.forest_events] at read
    exact (Except.ok.inj read).symm
  obtain ⟨f, found, fits⟩ := Driver.course_matched balanced idle accepted run
  obtain ⟨f', found', fits'⟩ := Driver.course_matched balanced idle accepted' run'
  obtain rfl := derives.unique found
  obtain rfl := derives'.unique found'
  subst image
  refine ⟨_, _, ⟨?_, rfl, ?_, ?_⟩, fits, fits', ?_⟩
  · simp only [Driver.kept, facing.diagnostics.attached, facing.diagnostics.attached']
    exact facing.diagnostics.world
  · simp only [facing.diagnostics.report]
  · simp only [all_isValid_mirror, size_mirror]
  · rintro _ ⟨⟩
    rw [Nat.min_self] at derives
    exact ⟨⟨next, derives⟩, fun good => Outcome.classify_isGood good⟩

theorem reflected_of_failure (quotable : construct ∈ Construct.quotable)
    (unmatched : ∀ next s, scribbled construct d source ≠ .ok (some next) s) :
    Reflected construct d source := by
  have balanced : construct.rule.Balanced := (Shipped.construct construct).balanced
  have faces := (mirrored d (·.all isValid) source).faces
  have judged := scribbled_mirrored quotable d source
  have accepted' := (size_mirror source).symm ▸ accepted
  obtain ⟨messages, driver, outcome, fits⟩ :=
    Driver.course_unmatched balanced idle accepted unmatched
  obtain ⟨messages', driver', outcome', fits'⟩ :=
    Driver.course_unmatched balanced idle accepted' fun next => judged.unmatched (unmatched next)
  have monitors : (d.monitor (Driver.scribe (·.all isValid)) source source.size).Faces
      (d.monitor (Driver.scribe (·.all isValid)) (mirrorSource source)
        (mirrorSource source).size) :=
    faces.monitors
  have bodies := Driver.body_facing faces unmatched judged
  obtain ⟨drivers, outcomes, heard⟩ := Driver.close_facing d
    (Driver.announced_facing monitors bodies d.restatement)
  rw [← Driver.parse_eq idle accepted, ← Driver.parse_eq idle accepted', fits.scribed,
    fits'.scribed] at drivers outcomes heard
  exact reflected_of_unmatched ⟨heard, rfl, drivers, Except.ok.inj outcomes⟩ rfl fits fits'

omit idle accepted in
/-- Whatever is parsed, the source and its image take corresponding courses. -/
theorem reflected (quotable : construct ∈ Construct.quotable) (d : Driver) (source : Source) :
    Reflected construct d source := by
  by_cases busy : d.busy = true
  · have fits (source : Source) :
        Driver.Course.Fits { driver := d, outcome := .parsingNow } d construct.rule source 0
          source.size (·.all isValid) :=
      fun _ _ _ _ world => ⟨world, rfl, Driver.parse_busy busy ..⟩
    exact reflected_of_unmatched ⟨.nil, rfl, rfl, rfl⟩ rfl (fits _) (fits _)
  have idle : d.busy = false := by simpa using busy
  cases refused : Driver.refuse? source.size 0 source.size with
  | some outcome =>
    have fits {source : Source}
        (refused : Driver.refuse? source.size 0 source.size = some outcome) :
        Driver.Course.Fits { driver := d, outcome } d construct.rule source 0 source.size
          (·.all isValid) :=
      fun _ _ _ _ world => ⟨world, rfl, Driver.parse_refused idle refused ..⟩
    exact reflected_of_unmatched ⟨.nil, rfl, rfl, rfl⟩ rfl (fits refused)
      (fits ((size_mirror source).symm ▸ refused))
  | none =>
    by_cases matched : ∃ next s, scribbled construct d source = .ok (some next) s
    · obtain ⟨next, s, run⟩ := matched
      exact reflected_of_match idle refused quotable run
    · exact reflected_of_failure idle refused quotable fun next s run => matched ⟨next, s, run⟩

end Courses

end Xml

theorem Notice.heard_of_alike {l l' : List Notice} (alike : List.Forall₂ Notice.Alike l l') :
    l'.map (fun n => (n.level, n.line)) = l.map fun n => (n.level, n.line) := by
  induction alike with
  | nil => rfl
  | cons first _ ih => rw [List.map_cons, List.map_cons, first.1, first.2, ih]

/-- Exchanging the two quotes in a source turns the quotes round in what is told of it, and nothing
else. Whoever accepts all calls and messages is answered alike by the two parses, and the messages
have the same levels and lines; where the result is good the calls are the same calls over the same
offsets, with the other quote. -/
theorem parse_mirrors_quotes (p : Xml.Parser) (construct : Xml.Construct) (source : Source)
    (client : Xml.Client σ) (world : σ) (quotable : construct ∈ Xml.Construct.quotable)
    (accepting : client.Accepting) (attentive : client.Attentive) :
    let image := Xml.mirrorSource source
    let run := p.parse construct source client.logged { world }
    let run' := p.parse construct image client.logged { world }
    let heard (log : Log Xml.Parser Xml.Call σ) :=
      log.messages.map fun e => (e.given.level, e.given.line)
    p.parse construct source client world = ⟨run.parser, run.world.world, run.outcome⟩ ∧
    p.parse construct image client world = ⟨run'.parser, run'.world.world, run'.outcome⟩ ∧
    ∃ outcome, run.outcome = .ok outcome ∧ run'.outcome = .ok outcome ∧
      run'.parser = run.parser ∧ heard run'.world = heard run.world ∧
      (outcome.isGood = true →
        run'.world.calls.map (·.given) = run.world.calls.map (·.given.mirror)) := by
  intro image run run' heard
  have calm : client.Calm :=
    ⟨fun p world call reason => by simp [accepting p world call],
      fun p world notice reason => by simp [attentive p world notice]⟩
  obtain ⟨course, course', reflects, fits, fits', judged⟩ :=
    Xml.reflected quotable p.driver source
  obtain ⟨told, part, last, logged, messages, delivered, listened, received⟩ :=
    p.parse_log construct source world calm fits
  obtain ⟨told', part', last', logged', messages', delivered', listened', received'⟩ :=
    p.parse_log construct image world calm fits'
  have run_eq : run = _ := logged
  have run_eq' : run' = _ := logged'
  refine ⟨p.parse_logged construct source client world, p.parse_logged construct image client world,
    course.outcome, by rw [run_eq], by rw [run_eq', reflects.outcome], ?_, ?_, fun good => ?_⟩
  · rw [run_eq, run_eq', reflects.driver, reflects.forest?]
    cases course.forest? with
    | none => rfl
    | some forest =>
      rw [Option.map_some, Option.elim_some, Option.elim_some, Xml.all_isValid_mirror]
  · have all : told.map (·.given) = course.messages :=
      messages.all_given fun e member => (listened e member).not_refused attentive
    have all' : told'.map (·.given) = course'.messages :=
      messages'.all_given fun e member => (listened' e member).not_refused attentive
    have same := Notice.heard_of_alike (all'.symm ▸ all.symm ▸ reflects.messages)
    simpa [run_eq, run_eq', heard, Function.comp_def] using same
  · have all := delivered.all_given fun e member => (received e member).not_refused accepting
    have all' := delivered'.all_given fun e member => (received' e member).not_refused accepting
    have turned := reflects.calls quotable fun forest matched =>
      ⟨(judged forest matched).1, (judged forest matched).2 good⟩
    rw [← all, ← all', List.map_map] at turned
    rw [run_eq, run_eq']
    exact turned

/-- A value that holds the other quote. -/
theorem parse_mirrors_quotes_nested :
    let source : Source := (Text.utf8 "'x\"y'").toArray
    let image := Xml.mirrorSource source
    let run := ({} : Xml.Parser).parse .entityValue source Xml.Client.deaf.logged { world := () }
    let run' := ({} : Xml.Parser).parse .entityValue image Xml.Client.deaf.logged { world := () }
    Xml.Construct.entityValue ∈ Xml.Construct.quotable ∧ Xml.Client.deaf.Accepting ∧
    Xml.Client.deaf.Attentive ∧ image = (Text.utf8 "\"x'y\"").toArray ∧
    run.outcome = .ok .allValid ∧ run'.outcome = .ok .allValid ∧
    run.world.calls.map (·.given) =
      [.value (.clamp source 1 4), .entityValueDone true true (.whole source)] ∧
    run'.world.calls.map (·.given) =
      [.value (.clamp image 1 4), .entityValueDone true false (.whole image)] := by
  intro source image run run'
  have calm : Xml.Client.deaf.Calm := Xml.Parser.deaf_calm
  have quotable : Xml.Construct.entityValue ∈ Xml.Construct.quotable := by decide
  have accepting : Xml.Client.deaf.Accepting := fun _ _ _ => rfl
  have attentive : Xml.Client.deaf.Attentive := fun _ _ _ => rfl
  let v : Xml.QuotedText Xml.MarkupText :=
    ⟨.single, ⟨Text.utf8 "x\"y", List.all_eq_true.mp rfl⟩, []⟩
  obtain ⟨found, -, -, -, -, told⟩ :=
    Xml.Parser.parse_written {} .entityValue source () rfl (by decide) calm
      (Xml.QuotedValue.ofEntity.tells v []) (List.cons_ne_nil _ _) rfl
  have given : run.world.calls.map (·.given) =
      [.value (.clamp source 1 4), .entityValueDone true true (.whole source)] :=
    (told accepting).trans rfl
  obtain ⟨-, -, outcome, answered, answered', -, -, calls⟩ :=
    parse_mirrors_quotes {} .entityValue source .deaf () quotable accepting attentive
  obtain rfl : outcome = .allValid := Except.ok.inj (answered.symm.trans found)
  refine ⟨quotable, accepting, attentive, by decide +kernel, found, answered', given, ?_⟩
  have turned := congrArg (List.map Xml.Call.mirror) given
  rw [List.map_map] at turned
  refine ((calls rfl).trans turned).trans ?_
  simp only [List.map_cons, List.map_nil, Xml.Call.mirror, Xml.mirrorSpan_clamp, Span.whole,
    Xml.size_mirror, image, Bool.not_true]

end Backtrack
