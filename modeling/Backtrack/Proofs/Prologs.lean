import Backtrack.Proofs.Written

/-! XML declarations as they are written, with their whitespace. The parser of XML declarations
finds these valid and no others, and delivers the version, the encoding and the standalone flag of
one, each with the kind of its quotes. -/
namespace Backtrack

variable {σ δ : Type}

namespace Xml

structure VersionText where
  quote : Quote
  number : Word versionChar

structure EncodingName where
  first : UInt8
  later : Run encodingRest
  begins : CharSet.alpha.contains first = true

structure EncodingText where
  /-- The gaps on either side of the equal sign. -/
  before : Gap
  after : Gap
  quote : Quote
  name : EncodingName

structure StandaloneText where
  yes : Bool
  quote : Quote

structure PrologText where
  beforeVersion : Space
  version : VersionText
  encoding : Option (Space × EncodingText)
  standalone : Option (Space × StandaloneText)
  after : Gap

section Printing

def VersionText.print (v : VersionText) : Bytes :=
  Text.utf8 "version" ++ Text.utf8 "=" ++ v.quote.enclose v.number.bytes

def EncodingName.bytes (name : EncodingName) : Bytes := name.first :: name.later.bytes

def EncodingText.print (e : EncodingText) : Bytes :=
  Text.utf8 "encoding" ++ (e.before.bytes ++ Text.utf8 "=" ++ e.after.bytes ++
    e.quote.enclose e.name.bytes)

def StandaloneText.value (s : StandaloneText) : Bytes := Text.utf8 (if s.yes then "yes" else "no")

def StandaloneText.print (s : StandaloneText) : Bytes :=
  Text.utf8 "standalone" ++ Text.utf8 "=" ++ s.quote.enclose s.value

/-- A part that may be left out together with the space in front of it. -/
def printOptional (print : δ → Bytes) : Option (Space × δ) → Bytes
  | none => []
  | some (gap, part) => gap.bytes ++ print part

def PrologText.print (d : PrologText) : Bytes :=
  Text.utf8 "<?xml" ++ (d.beforeVersion.bytes ++ d.version.print ++
    printOptional EncodingText.print d.encoding ++
    printOptional StandaloneText.print d.standalone ++ d.after.bytes ++ Text.utf8 "?>")

end Printing

section Saying

variable (source : Source)

def VersionText.calls (v : VersionText) (pos : Nat) : List Call :=
  [.versionNumber v.quote.isSingle
    (.ofText source (pos + (Text.utf8 "version=").length + 1) v.number.bytes)]

/-- Where the quoted name begins. -/
def EncodingText.offset (e : EncodingText) : Nat :=
  (Text.utf8 "encoding").length + e.before.bytes.length + (Text.utf8 "=").length +
    e.after.bytes.length

def EncodingText.calls (e : EncodingText) (pos : Nat) : List Call :=
  [.encodingName (.ofText source (pos + e.offset + 1) e.name.bytes),
    .encodingDeclDone true e.quote.isSingle (.ofText source pos e.print)]

def StandaloneText.calls (s : StandaloneText) : List Call :=
  [.standalone s.yes s.quote.isSingle]

def optionalCalls (calls : δ → Nat → List Call) (pos : Nat) : Option (Space × δ) → List Call
  | none => []
  | some (gap, part) => calls part (pos + gap.bytes.length)

/-- The calls for a declaration that begins at the position. -/
def PrologText.calls (d : PrologText) (pos : Nat) : List Call :=
  let version := pos + (Text.utf8 "<?xml").length + d.beforeVersion.bytes.length
  let encoding := version + d.version.print.length
  let standalone := encoding + (printOptional EncodingText.print d.encoding).length
  d.version.calls source version ++
    optionalCalls (EncodingText.calls source) encoding d.encoding ++
    optionalCalls (fun s _ => s.calls) standalone d.standalone ++
    [.declarationDone true (.ofText source pos d.print)]

end Saying

section Spelling

theorem equals_spells : Spells equals fun gaps : Gap × Gap =>
    gaps.1.bytes ++ Text.utf8 "=" ++ gaps.2.bytes :=
  ((blank_spells.seq (Rule.Spells.byte _)).seq blank_spells).map
    (fun parts => (parts.1.1, parts.2)) fun _ => rfl

theorem encodingName_spells : Spells (Rule.set .alpha ++ Rule.many (.set encodingRest) : XmlRule)
    EncodingName.bytes :=
  ((Rule.Spells.set _).seq (run_spells _)).map
    (fun ⟨first, later⟩ => (⟨first.1, later, first.2⟩ : EncodingName)) fun _ => rfl

theorem EncodingDecl.quoted_spells (q : Quote) :
    Spells (quoted q) fun parts : Quote × EncodingName =>
    parts.1.enclose parts.2.bytes := by
  have name : Spells (((Rule.set .alpha ++ Rule.many (.set encodingRest)).action
      Action.encodingName).prepare (major "Did not find ending quote for encoding.") ++
      (mark q).cancel) fun name : EncodingName => name.bytes ++ [q.byte] :=
    (((encodingName_spells.action _).effect _).seq ((Rule.Spells.byte _).effect _)).map (·.1)
      fun _ => rfl
  have opening : Spells (((mark q).action (.quote q)).prepare
      (major s!"Found starting {q.word} quote but no content for encoding.")) fun _ : Unit =>
      [q.byte] :=
    ((Rule.Spells.byte _).action _).effect _
  exact (opening.seq (name.choice (((skipped_spells _ _).effect _).effect _))).map
    (fun parts => (q, parts.2)) fun _ => (List.append_assoc ..).symm

theorem EncodingDecl.spells : Spells rule EncodingText.print := by
  have value : Spells (equals.prepare (major "Did not find name for encoding.") ++
      (quoted .double ||| quoted .single)) fun e : EncodingText =>
      e.before.bytes ++ Text.utf8 "=" ++ e.after.bytes ++ e.quote.enclose e.name.bytes :=
    ((equals_spells.effect _).seq ((quoted_spells .double).choice (quoted_spells .single))).map
      (fun parts => ⟨parts.1.1, parts.1.2, parts.2.1, parts.2.2⟩) fun _ => rfl
  exact ((((Rule.Spells.literal _).effect _).seq
    (value.choice (((skipped_spells _ _).effect _).effect _))).map (·.2) fun _ => rfl).action _

namespace Declaration

theorem versionQuoted_spells (q : Quote) : Spells (versionQuoted q) fun v : VersionText =>
    v.quote.enclose v.number.bytes := by
  have number : Spells (((Rule.many1 (.set versionChar)).action (Action.versionNumber q)).prepare
      (major "Expected ending quote after version number in xml declaration.") ++
      (mark q).cancel) fun number : Word versionChar => number.bytes ++ [q.byte] :=
    ((((word_spells _).action _).effect _).seq ((Rule.Spells.byte _).effect _)).map (·.1)
      fun _ => rfl
  exact (((Rule.Spells.byte _).effect _).seq
    (number.choice (((skipped_spells _ _).effect _).effect _))).map
    (fun parts => ⟨q, parts.2⟩) fun _ => (List.append_assoc ..).symm

theorem version_spells : Spells version fun parts : Space × VersionText =>
    parts.1.bytes ++ parts.2.print :=
  (((((spaces_spells.seq (Rule.Spells.literal _)).effect _).seq
    ((Rule.Spells.byte _).effect _)).seq
      ((versionQuoted_spells .single).choice (versionQuoted_spells .double))).map
    (fun parts => (parts.1.1.1, parts.2)) fun _ => by simp [VersionText.print]; rfl)

theorem standaloneValue_spells (yes : Bool) (q : Quote) : Spells (standaloneValue yes q)
    fun s : StandaloneText => s.quote.enclose s.value :=
  ((Rule.Spells.literal _).action _).map (fun _ => ⟨yes, q⟩) fun _ => rfl

theorem standalone_spells : Spells standalone fun parts : Space × StandaloneText =>
    parts.1.bytes ++ parts.2.print := by
  have value : Spells (.firstOf [standaloneValue true .single, standaloneValue true .double,
      standaloneValue false .single, standaloneValue false .double]) fun s : StandaloneText =>
      s.quote.enclose s.value := by
    refine .firstOf ?_
    simp only [List.forall_mem_cons]
    exact ⟨standaloneValue_spells _ _, standaloneValue_spells _ _, standaloneValue_spells _ _,
      standaloneValue_spells _ _, by simp⟩
  exact ((((spaces_spells.seq (Rule.Spells.literal _)).effect _).seq
    ((Rule.Spells.byte _).effect _)).seq value).map
    (fun parts => (parts.1.1.1, parts.2)) fun _ => by simp [StandaloneText.print]; rfl

theorem optional_spells {part : XmlRule} {print : δ → Bytes}
    (h : Spells part fun parts : Space × δ => parts.1.bytes ++ print parts.2) :
    Spells (.optional part) (printOptional print) := by
  have present : Spells part (printOptional print) := h.map some fun _ => rfl
  exact present.optional ⟨none, rfl⟩

/-- A match that skips nothing is over a declaration. -/
theorem spells : Spells rule PrologText.print := by
  have encoding := optional_spells (spaces_spells.seq EncodingDecl.spells)
  have body := ((((version_spells.seq encoding).seq (optional_spells standalone_spells)).seq
    blank_spells).seq ((Rule.Spells.literal (Text.utf8 "?>")).effect .cancel))
  exact ((((Rule.Spells.literal _).effect _).seq
    (body.choice (((skipped_spells _ _).effect _).effect _))).map
    (fun ⟨_, ⟨⟨⟨⟨beforeVersion, version⟩, encoding⟩, standalone⟩, after⟩, _⟩ =>
      (⟨beforeVersion, version, encoding, standalone, after⟩ : PrologText)) fun _ => rfl).action _

end Declaration
end Spelling

section Telling

variable {rest : Bytes}

theorem optional_tells {view : Tree Action → List Call} {part : XmlRule} {print : δ → Bytes}
    (said : Source → δ → Nat → List Call) (o : Option (Space × δ))
    (present : ∀ (gap : Space) (d : δ), Tells view part (gap.bytes ++ print d) rest
      fun source pos => said source d (pos + gap.bytes.length))
    (absent : part.Rejects rest) :
    Tells view (.optional part) (printOptional print o) rest fun source pos =>
      optionalCalls (said source) pos o := by
  cases o with
  | none => exact .optionalNone absent
  | some parts => exact (present parts.1 parts.2).optional

theorem equals_reads (before after : Gap) (barred : Bars whitespace rest) :
    equals.Reads (before.bytes ++ Text.utf8 "=" ++ after.bytes) rest := by
  have sign : Bars whitespace (Text.utf8 "=" ++ (after.bytes ++ rest)) := bars_cons rfl _
  exact ((Gap.reads before sign).seq (byte_reads _ _)).seq (Gap.reads after barred)

theorem mark_rejects (q : Quote) {r : Quote} (other : q ≠ r) (text rest : Bytes) :
    (mark q).Rejects (r.enclose text ++ rest) := by
  refine .set (bars_cons ?_ _)
  revert other
  cases q <;> cases r <;> decide

namespace EncodingDecl

theorem quoted_tells (q : Quote) (name : EncodingName) (rest : Bytes) :
    Tells (fun tree => [tree]) (quoted q) (q.enclose name.bytes) rest fun source pos =>
      [.node (.quote q) (.ofText source pos [q.byte]) [],
        .node .encodingName (.ofText source (pos + 1) name.bytes) []] := by
  have barred : Bars encodingRest ([q.byte] ++ rest) := bars_cons (by cases q <;> rfl) _
  have letters : (Rule.set .alpha ++ Rule.many (.set encodingRest) : XmlRule).Reads name.bytes
      ([q.byte] ++ rest) :=
    Rule.Reads.seq (.set name.begins _) (.many_set name.later.inside barred)
  have opening (rest : Bytes) : Tells (fun tree => [tree]) ((mark q).action (.quote q)) [q.byte]
      rest _ := .leaf (byte_reads _ _) rfl rfl
  have named : Tells (fun tree => [tree])
      ((Rule.set .alpha ++ Rule.many (.set encodingRest)).action .encodingName) name.bytes
      ([q.byte] ++ rest) _ := .leaf letters rfl rfl
  refine (((opening _).effect _).seq
    ((named.effect _).seq ((mark_tells _ q rest).effect _)).choiceLeft).as ?_ fun _ _ => ?_
  · exact (List.append_assoc ..).symm
  · simp

theorem value_tells (q : Quote) (name : EncodingName) (rest : Bytes) :
    Tells (fun tree => [tree]) (quoted .double ||| quoted .single) (q.enclose name.bytes) rest
      fun source pos =>
        [.node (.quote q) (.ofText source pos [q.byte]) [],
          .node .encodingName (.ofText source (pos + 1) name.bytes) []] := by
  have told := quoted_tells q name rest
  cases q with
  | double => exact told.choiceLeft
  | single =>
    have other := mark_rejects .double (r := .single) nofun name.bytes rest
    exact told.choiceRight (.seq (.effect (.action other _) _))

end EncodingDecl

theorem EncodingText.tells (e : EncodingText) (rest : Bytes) :
    Tells Declaration.partCalls EncodingDecl.rule e.print rest fun source pos =>
      e.calls source pos := by
  have sign : equals.Reads (e.before.bytes ++ Text.utf8 "=" ++ e.after.bytes)
      (e.quote.enclose e.name.bytes ++ rest) :=
    equals_reads _ _ (bars_cons (by cases e.quote <;> rfl) _)
  have value := ((sign.tells rfl).effect (.prepare (major "Did not find name for encoding."))).seq
    (EncodingDecl.value_tells e.quote e.name rest)
  refine Rule.Tells.action (((Rule.Tells.literal (Text.utf8 "encoding") _).effect _).seq
    value.choiceLeft) rfl fun source pos f shown clean => ?_
  have valid := isValid_node .encodingDecl rfl (.ofText source pos e.print) clean
  rw [List.flatMap_singleton'] at shown
  have calls : EncodingDecl.calls (.node .encodingDecl (.ofText source pos e.print) f) =
      e.calls source pos := by
    simp only [EncodingDecl.calls, Tree.action, Tree.children, Tree.span, valid]
    simp [shown, EncodingText.calls, EncodingText.offset, EncodingDecl.partCalls,
      EncodingDecl.singleQuoted, Tree.action, Tree.span, Nat.add_assoc]
  exact calls

namespace Declaration

theorem versionQuoted_tells (q : Quote) (number : Word versionChar) (rest : Bytes) :
    Tells partCalls (versionQuoted q) (q.enclose number.bytes) rest fun source pos =>
      [.versionNumber q.isSingle (.ofText source (pos + 1) number.bytes)] := by
  have barred : Bars versionChar ([q.byte] ++ rest) := bars_cons (by cases q <;> rfl) _
  have told : Tells partCalls ((Rule.many1 (.set versionChar)).action (.versionNumber q))
      number.bytes ([q.byte] ++ rest) fun source pos =>
      [.versionNumber q.isSingle (.ofText source pos number.bytes)] :=
    number.tells barred (fun _ => rfl) rfl
  refine (((mark_tells partCalls q _).effect _).seq
    ((told.effect _).seq ((mark_tells _ q rest).effect _)).choiceLeft).as ?_ fun _ _ => ?_
  · exact (List.append_assoc ..).symm
  · simp

theorem version_tells (gap : Space) (v : VersionText) (rest : Bytes) :
    Tells partCalls version (gap.bytes ++ v.print) rest fun source pos =>
      v.calls source (pos + gap.bytes.length) := by
  have value : Tells partCalls (versionQuoted .single ||| versionQuoted .double)
      (v.quote.enclose v.number.bytes) rest fun source pos =>
      [.versionNumber v.quote.isSingle (.ofText source (pos + 1) v.number.bytes)] := by
    have told := versionQuoted_tells v.quote v.number rest
    obtain ⟨q, number⟩ := v
    cases q with
    | single => exact told.choiceLeft
    | double =>
      have other := mark_rejects .single (r := .double) nofun number.bytes rest
      exact told.choiceRight (.seq (.effect other _))
  have begun (rest : Bytes) : (spaces ++ Rule.text "version").Reads
      (gap.bytes ++ Text.utf8 "version") rest :=
    (Space.reads gap (bars_cons rfl _)).seq (.literal _ _)
  have sign (rest : Bytes) : (char '=').Reads (Text.utf8 "=") rest := byte_reads _ _
  refine (((((begun _).effect _).seq ((sign _).effect _)).tells rfl).seq value).as ?_ fun _ _ => ?_
  · simp [VersionText.print]
  · simp [VersionText.calls, Nat.add_assoc]
    rfl

/-- The first of the literals that stands there is the one that was written. -/
theorem standaloneValue_tells (s : StandaloneText) (rest : Bytes) :
    Tells partCalls (.firstOf [standaloneValue true .single, standaloneValue true .double,
      standaloneValue false .single, standaloneValue false .double])
      (s.quote.enclose s.value) rest fun _ _ => s.calls := by
  have told (yes : Bool) (q : Quote) : Tells partCalls (standaloneValue yes q)
      (q.enclose (StandaloneText.mk yes q).value) rest
      fun _ _ => (StandaloneText.mk yes q).calls := .leaf (.literal _ _) rfl rfl
  have others {yes yes' : Bool} {q q' : Quote} (apart : ¬ (yes = yes' ∧ q = q')) :
      (standaloneValue yes q).Rejects (q'.enclose (StandaloneText.mk yes' q').value ++ rest) := by
    refine .action (.literal_apart ?_ rest) _
    revert apart
    cases yes <;> cases yes' <;> cases q <;> cases q' <;> decide
  obtain ⟨_ | _, _ | _⟩ := s
  · refine ((told false .single).choiceRight (.choice ?_ ?_)).choiceLeft <;>
      exact others (by decide)
  · refine (told false .double).choiceRight (.choice (.choice ?_ ?_) ?_) <;>
      exact others (by decide)
  · exact (told true .single).choiceLeft.choiceLeft.choiceLeft
  · exact ((told true .double).choiceRight (others (by decide))).choiceLeft.choiceLeft

theorem standalone_tells (gap : Space) (s : StandaloneText) (rest : Bytes) :
    Tells partCalls standalone (gap.bytes ++ s.print) rest fun _ _ => s.calls := by
  have begun (rest : Bytes) : (spaces ++ Rule.text "standalone").Reads
      (gap.bytes ++ Text.utf8 "standalone") rest :=
    (Space.reads gap (bars_cons rfl _)).seq (.literal _ _)
  have sign (rest : Bytes) : (char '=').Reads (Text.utf8 "=") rest := byte_reads _ _
  refine (((((begun _).effect _).seq ((sign _).effect _)).tells rfl).seq
    (standaloneValue_tells s rest)).as ?_ fun _ _ => ?_
  · simp [StandaloneText.print]
  · rfl

theorem standalone_rejects (after : Gap) (rest : Bytes) :
    standalone.Rejects (after.bytes ++ (Text.utf8 "?>" ++ rest)) := by
  have bracket : Bars whitespace (Text.utf8 "?>" ++ rest) := bars_cons rfl _
  have other : (Rule.text "standalone" : XmlRule).Rejects (Text.utf8 "?>" ++ rest) :=
    .literal_apart (by decide) rest
  exact .seq (.seq (.effect (after.rejects bracket other) _))

theorem encoding_rejects (o : Option (Space × StandaloneText)) (after : Gap) (rest : Bytes) :
    (spaces ++ EncodingDecl.rule).Rejects
      (printOptional StandaloneText.print o ++ (after.bytes ++ (Text.utf8 "?>" ++ rest))) := by
  have other {front : Bytes} (apart : ¬ Text.utf8 "encoding" <+: front ∧
      ¬ front <+: Text.utf8 "encoding") (rest : Bytes) :
      EncodingDecl.rule.Rejects (front ++ rest) :=
    .action (.seq (.effect (.literal_apart apart rest) _)) _
  cases o with
  | none =>
    rw [printOptional, List.nil_append]
    exact after.rejects (bars_cons rfl _) (other (by decide) rest)
  | some parts =>
    rw [printOptional, StandaloneText.print, List.append_assoc, List.append_assoc,
      List.append_assoc]
    exact Gap.rejects parts.1.toRun (bars_cons rfl _) (other (by decide) _)

end Declaration

/-- The rule matches a declaration and tells it. -/
theorem PrologText.tells (d : PrologText) (rest : Bytes) :
    Tells Construct.declaration.items Declaration.rule d.print rest fun source pos =>
      (d.calls source pos).map .call := by
  have standalone := optional_tells (fun _ s _ => s.calls) d.standalone
    (fun gap s => Declaration.standalone_tells gap s _)
    (Declaration.standalone_rejects d.after rest)
  have encoded (gap : Space) (e : EncodingText) (rest : Bytes) :
      Tells Declaration.partCalls (spaces ++ EncodingDecl.rule) (gap.bytes ++ e.print) rest
        fun source pos => e.calls source (pos + gap.bytes.length) :=
    ((Space.reads gap (bars_cons rfl _)).tells rfl).seq (e.tells rest)
  have encoding := optional_tells (EncodingText.calls ·) d.encoding
    (fun gap e => encoded gap e _) (Declaration.encoding_rejects d.standalone d.after rest)
  have bracket : Tells Declaration.partCalls (Rule.text "?>").cancel (Text.utf8 "?>") rest _ :=
    (Rule.Tells.literal _ _).effect _
  have gap : Tells Declaration.partCalls blank d.after.bytes (Text.utf8 "?>" ++ rest) _ :=
    (Gap.reads d.after (bars_cons rfl _)).tells rfl
  have body := ((((Declaration.version_tells d.beforeVersion d.version _).seq encoding).seq
    standalone).seq gap).seq bracket
  refine Rule.Tells.action (((Rule.Tells.literal (Text.utf8 "<?xml") _).effect _).seq
    body.choiceLeft) rfl fun source pos f shown clean => ?_
  have valid := isValid_node .declaration rfl (.ofText source pos d.print) clean
  have calls : Declaration.calls (.node .declaration (.ofText source pos d.print) f) =
      d.calls source pos := by
    simp only [Declaration.calls, Tree.action, Tree.children, Tree.span, shown, valid]
    simp [PrologText.calls, Nat.add_assoc]
  exact congrArg (List.map Item.call) calls

end Telling

theorem PrologText.print_ne_nil (d : PrologText) : d.print ≠ [] := List.cons_ne_nil _ _

/-- The last call says that the whole source is a valid declaration. -/
theorem PrologText.calls_getLast (d : PrologText) {source : Source}
    (text : source.toList = d.print) :
    (d.calls source 0).getLast? = some (.declarationDone true (.whole source)) := by
  have whole : Span.ofText source 0 d.print = .whole source := by
    rw [Span.ofText, ← text, Array.length_toList, Nat.zero_add]
    rfl
  rw [calls, whole, List.getLast?_concat]

end Xml

/-- The parser of XML declarations finds a source valid as a whole just where it is a declaration as
it is written: after `<?xml`, a space and the version in quotes come an encoding, if there is one,
and a standalone flag, if there is one, each behind a space. Then nothing is reported, and the
receiver of a client that never gives up is given the version, the name of the encoding, the end of
its part and the flag, each with the kind of its quotes, and at last the end over the whole source.
A receiver that takes every call is given all of it. -/
theorem parse_declares_prolog (p : Xml.Parser) (source : Source) (client : Xml.Client σ) (world : σ)
    (idle : p.driver.busy = false) (budget : 0 < p.driver.budget) (calm : client.Calm) :
    let run := p.parse .declaration source client.logged { world }
    p.parse .declaration source client world = ⟨run.parser, run.world.world, run.outcome⟩ ∧
    (run.outcome = .ok .allValid ↔ ∃ d : Xml.PrologText, source.toList = d.print) ∧
    ∀ d : Xml.PrologText, source.toList = d.print →
      run.parser.driver.lastReport.errors = 0 ∧ run.parser.valid .declaration = true ∧
      run.world.messages = [] ∧ Delivered ((d.calls source 0).map .call) run.world.calls ∧
      (d.calls source 0).getLast? = some (.declarationDone true (.whole source)) ∧
      (client.Accepting → run.world.calls.map (·.given) = d.calls source 0) := by
  intro run
  have told (d : Xml.PrologText) := d.tells []
  refine ⟨p.parse_logged .declaration source client world,
    p.parse_allValid_iff .declaration source world idle budget calm Xml.Declaration.spells told
      Xml.PrologText.print_ne_nil, fun d text => ?_⟩
  have split : source.toList = d.print ++ [] := text.trans (List.append_nil _).symm
  obtain ⟨-, reported, valid, silent, delivered, given⟩ :=
    p.parse_written .declaration source world idle budget calm (told d) d.print_ne_nil split
  refine ⟨reported, valid, silent, delivered, d.calls_getLast text, fun accepting => ?_⟩
  rw [given accepting, List.flatMap_map]
  exact List.flatMap_singleton' _

/-- A version and a flag between quotes of different kinds, and an encoding between them. -/
theorem parse_declares_prolog_latin :
    let space : Xml.Space := ⟨⟨[0x20], List.forall_mem_singleton.mpr rfl⟩, by decide⟩
    let gap : Xml.Gap := ⟨[], by simp⟩
    let d : Xml.PrologText :=
      ⟨space, ⟨.single, ⟨⟨Text.utf8 "1.0", List.all_eq_true.mp rfl⟩, by decide⟩⟩,
        some (space, ⟨gap, space.toRun, .double,
          ⟨0x4C, ⟨Text.utf8 "atin-1", List.all_eq_true.mp rfl⟩, rfl⟩⟩),
        some (space, ⟨false, .double⟩), gap⟩
    let source : Source :=
      (Text.utf8 "<?xml version='1.0' encoding= \"Latin-1\" standalone=\"no\"?>").toArray
    let run := ({} : Xml.Parser).parse .declaration source Xml.Client.deaf.logged { world := () }
    ({} : Xml.Parser).driver.busy = false ∧ 0 < ({} : Xml.Parser).driver.budget ∧
    Xml.Client.deaf.Calm ∧ source.toList = d.print ∧ run.outcome = .ok .allValid ∧
    run.world.calls.map (·.given) =
      [.versionNumber true (.clamp source 15 18), .encodingName (.clamp source 31 38),
        .encodingDeclDone true false (.clamp source 20 39), .standalone false false,
        .declarationDone true (.whole source)] := by
  intro space gap d source run
  have calm : Xml.Client.deaf.Calm := Xml.Parser.deaf_calm
  have text : source.toList = d.print := rfl
  obtain ⟨-, valid, told⟩ := parse_declares_prolog {} source .deaf () rfl (by decide) calm
  obtain ⟨-, -, -, -, -, given⟩ := told d text
  exact ⟨rfl, by decide, calm, text, valid.mpr ⟨d, text⟩, (given fun _ _ _ => rfl).trans rfl⟩

end Backtrack
