import Backtrack.Proofs.Lexemes

/-! Values between quotes as they are written: plain text with markup in it. The kinds of value
differ in the markup that they allow, in their messages and in the call that closes them. What the
rule of a kind spells and tells is put together once from what is so of its markup. -/
namespace Backtrack.Xml

theorem Reference.spells : Spells Reference.rule ReferenceText.print := by
  let body (r : ReferenceText) : Bytes := r.sign.tail ++ r.payload
  have hex : Spells hex body :=
    (((Rule.Spells.literal _).effect _).seq (((word_spells _).action _).effect _)).map
      (fun parts => .hexDigits parts.2) fun _ => rfl
  have digits : Spells digits body :=
    (((Rule.Spells.byte _).effect _).seq (((word_spells _).action _).effect _)).map
      (fun parts => .digits parts.2) fun _ => rfl
  have entity : Spells entity body :=
    ((name_spells.action _).effect _).map .entity fun _ => rfl
  have closed : Spells (.firstOf [Reference.hex, Reference.digits, Reference.entity] ++
      (char ';').cancel) fun r => body r ++ Text.utf8 ";" :=
    (((hex.choice digits).choice entity).seq ((Rule.Spells.byte _).effect _)).map (·.1) fun _ => rfl
  refine (((Rule.Spells.byte _).effect _).seq
    (closed.choice (((skipped_spells _ _).effect _).effect _))).map (·.2) ?_
  rintro ⟨-, r⟩
  cases r <;> rfl

theorem valueText_spells (q : Quote) :
    Spells (valueText q) fun run : Run (plainIn q) => run.bytes := by
  have text : Spells (.many1 (.set (plainIn q))) fun run : Run (plainIn q) => run.bytes :=
    (word_spells _).map (·.toRun) fun _ => rfl
  exact text.action _

/-- A text that the source holds is what its span shows. -/
theorem ofText_bytes {source : Source} {pos : Nat} {text rest : Bytes}
    (faces : Faces source.toList pos (text ++ rest)) :
    (Span.ofText source pos text).bytes = text := by
  have further := faces.step.inside
  rw [Array.length_toList] at further
  have held := congrArg (List.take text.length) faces.drop
  rw [List.take_left] at held
  have last : min (pos + text.length) source.size = pos + text.length := Nat.min_eq_left further
  have first : min pos (pos + text.length) = pos := Nat.min_eq_left (Nat.le_add_right ..)
  rw [Span.ofText, Span.bytes, Span.clamp]
  simp only [last, first, Array.toList_extract, List.extract_eq_take_drop, Nat.add_sub_cancel_left]
  exact held

/-- Plain text, and markup each with the plain text behind it. -/
structure MixedText (μ : Type) (s : CharSet) where
  first : Run s
  others : List (μ × Run s)

structure QuotedText (μ : Type) where
  quote : Quote
  content : MixedText μ (plainIn quote)

namespace MixedText

variable {μ : Type} {s : CharSet} (print : μ → Bytes)

def printOther (other : μ × Run s) : Bytes := print other.1 ++ other.2.bytes

protected def print (content : MixedText μ s) : Bytes :=
  content.first.bytes ++ content.others.flatMap (printOther print)

def otherCalls (call : Source → μ → Nat → Call) (source : Source) (other : μ × Run s) (pos : Nat) :
    List Call :=
  call source other.1 pos :: other.2.calls source (pos + (print other.1).length)

/-- Each piece of the content is said in its place. -/
def calls (call : Source → μ → Nat → Call) (source : Source) (content : MixedText μ s) (pos : Nat) :
    List Call :=
  content.first.calls source pos ++
    spread (printOther print) (otherCalls print call source) content.others
      (pos + content.first.bytes.length)

/-- A piece in front of the content of a value. Plain text is joined to the plain text there. -/
def prepend : μ ⊕ Run s → MixedText μ s → MixedText μ s
  | .inl m, content => ⟨⟨[], by simp⟩, (m, content.first) :: content.others⟩
  | .inr run, content =>
    ⟨⟨run.bytes ++ content.first.bytes,
        List.forall_mem_append.mpr ⟨run.inside, content.first.inside⟩⟩,
      content.others⟩

def printPiece : μ ⊕ Run s → Bytes
  | .inl m => print m
  | .inr run => run.bytes

/-- The content that pieces make up. -/
def ofPieces (pieces : List (μ ⊕ Run s)) : MixedText μ s :=
  pieces.foldr prepend ⟨⟨[], by simp⟩, []⟩

theorem print_ofPieces (pieces : List (μ ⊕ Run s)) :
    pieces.flatMap (printPiece print) = (ofPieces pieces).print print := by
  induction pieces with
  | nil => rfl
  | cons piece pieces ih =>
    rw [List.flatMap_cons, ih]
    cases piece with
    | inl m => simp [ofPieces, prepend, printPiece, MixedText.print, printOther]
    | inr run => simp [ofPieces, prepend, printPiece, MixedText.print]

end MixedText

/-- The signs in front of the payload. -/
def ReferenceKind.sign : ReferenceKind → Bytes
  | entity => Text.utf8 "&"
  | digits => Text.utf8 "&#"
  | hexDigits => Text.utf8 "&#x"

namespace Call

/-- A piece of a value, written back out. -/
def written : Call → Bytes
  | value text => text.bytes
  | reference kind payload => kind.sign ++ payload.bytes ++ Text.utf8 ";"
  | peReference target => Text.utf8 "%" ++ target.bytes ++ Text.utf8 ";"
  | _ => []

def isValue : Call → Bool
  | value _ => true
  | _ => false

def isMarkup : Call → Bool
  | reference _ _ | peReference _ => true
  | _ => false

end Call

/-- What may begin markup in a value. -/
def markupSign : CharSet := .ofBytes [0x25, 0x26]

/-- A kind of value: what its rule is made of, and how its markup is written and said. -/
structure ValueGrammar (μ : Type) where
  markup : XmlRule
  opened : Quote → Message
  unclosed : Quote → Message
  act : Quote → Action
  skip : XmlRule
  partCalls : Tree Action → List Call
  calls : Tree Action → List Call
  done : Bool → Bool → Span → Call
  print : μ → Bytes
  call : Source → μ → Nat → Call
  sound : ∀ q, (act q == .invalid) = false
  skips : Spells skip fun v : QuotedText μ => v.quote.enclose (v.content.print print)
  spells : Spells markup print
  tells : ∀ m rest, Tells partCalls markup (print m) rest fun source pos => [call source m pos]
  begins : ∀ m, ∃ b more, print m = b :: more ∧ markupSign.contains b = true
  rejects : ∀ rest, Bars markupSign rest → markup.Rejects rest
  value : ∀ span f, partCalls (.node .value span f) = [.value span]
  marked : ∀ source m pos, (call source m pos).isMarkup = true
  written : ∀ source m pos rest, Faces source.toList pos (print m ++ rest) →
    (call source m pos).written = print m
  calls_node : ∀ q span f, calls (.node (act q) span f) =
    f.flatMap partCalls ++ [done (isValid (.node (act q) span f)) q.isSingle span]

namespace ValueGrammar

variable {μ β : Type} (g : ValueGrammar μ)

def quoted (q : Quote) : XmlRule :=
  let content := (Rule.many (g.markup ||| valueText q)).prepare (g.unclosed q)
  (Rule.inOrder [(mark q).push (g.opened q), content, mark q]).cancel.action (g.act q)

def rule : XmlRule := .firstOf [g.quoted .single, g.quoted .double, g.skip]

def printValue (v : QuotedText μ) : Bytes := v.quote.enclose (v.content.print g.print)

/-- The calls for a value that begins at the position. -/
def valueCalls (source : Source) (v : QuotedText μ) (pos : Nat) : List Call :=
  v.content.calls g.print g.call source (pos + 1) ++
    [g.done true v.quote.isSingle (.ofText source pos (g.printValue v))]

theorem quoted_spells (q : Quote) : Spells (g.quoted q) g.printValue := by
  have markup : Spells g.markup (MixedText.printPiece g.print (s := plainIn q)) :=
    g.spells.map .inl fun _ => rfl
  have text : Spells (valueText q) (MixedText.printPiece g.print (s := plainIn q)) :=
    (valueText_spells q).map .inr fun _ => rfl
  have content : Spells (.many (g.markup ||| valueText q))
      (MixedText.print g.print (s := plainIn q)) :=
    (markup.choice text).many.map .ofPieces (MixedText.print_ofPieces g.print)
  exact ((((((Rule.Spells.byte _).effect _).seq (content.effect _)).seq (Rule.Spells.byte _)).map
    (fun parts => (⟨q, parts.1.2⟩ : QuotedText μ)) fun _ => rfl).effect _).action _

theorem rule_spells : Spells g.rule g.printValue :=
  ((g.quoted_spells .single).choice (g.quoted_spells .double)).choice g.skips

section Content

variable {q : Quote} {rest : Bytes}

/-- Plain text in front of more pieces. -/
theorem run_tells (run : Run (plainIn q)) {more : Bytes} {said : Source → Nat → List Call}
    (barred : Bars (plainIn q) (more ++ rest))
    (told : Tells g.partCalls (.many (g.markup ||| valueText q)) more rest said) :
    Tells g.partCalls (.many (g.markup ||| valueText q)) (run.bytes ++ more) rest
      fun source pos => run.calls source pos ++ said source (pos + run.bytes.length) := by
  by_cases none : run.bytes = []
  · exact told.as (by simp [none]) fun source pos => by simp [Run.calls, none]
  · have other : Bars markupSign (run.bytes ++ (more ++ rest)) :=
      .append (fun c member => CharSet.not_contains_of_disjoint (by cases q <;> rfl)
        (run.inside c member)) fun empty => absurd empty none
    have text : Tells g.partCalls (valueText q) run.bytes (more ++ rest)
        fun source pos => g.partCalls (.node .value (.ofText source pos run.bytes) []) :=
      .leaf (.many1_set none run.inside barred) rfl rfl
    refine ((text.choiceRight (g.rejects _ other)).manyCons none told).as rfl ?_
    intro source pos
    simp [Run.calls, none, g.value]

theorem others_bars (others : List (μ × Run (plainIn q))) (rest : Bytes) :
    Bars (plainIn q) (others.flatMap (MixedText.printOther g.print) ++ ([q.byte] ++ rest)) := by
  cases others with
  | nil => exact bars_cons (by cases q <;> rfl) rest
  | cons other others =>
    obtain ⟨b, more, begins, sign⟩ := g.begins other.1
    have apart : ¬ (plainIn q).contains b = true :=
      CharSet.not_contains_of_disjoint (by cases q <;> rfl) sign
    rw [List.flatMap_cons, MixedText.printOther, begins]
    exact bars_cons (by simpa using apart) _

/-- The pieces of a value, the rest of them told behind each. -/
theorem content_tells (content : MixedText μ (plainIn q)) (rest : Bytes) :
    Tells g.partCalls (.many (g.markup ||| valueText q)) (content.print g.print)
      ([q.byte] ++ rest) fun source pos => content.calls g.print g.call source pos := by
  refine g.run_tells content.first (g.others_bars _ rest) ?_
  generalize content.others = others
  induction others with
  | nil =>
    refine .manyNil (.choice (g.rejects _ (bars_cons ?_ rest)) ?_)
    · cases q <;> rfl
    · exact .action (.many1 (.set (bars_cons (by cases q <;> rfl) rest))) _
  | cons other others ih =>
    obtain ⟨m, run⟩ := other
    obtain ⟨b, more, begins, -⟩ := g.begins m
    have filled : g.print m ≠ [] := by simp [begins]
    refine ((((g.tells m _).choiceLeft).manyCons filled
      (g.run_tells run (g.others_bars others rest) ih))).as
      (by simp [MixedText.printOther]) fun source pos => ?_
    simp [spread, MixedText.printOther, MixedText.otherCalls, Nat.add_assoc]

end Content

/-- A value is told by what a view makes of its calls. -/
theorem rule_tells {view : Tree Action → List β} (made : List Call → List β)
    (shows : ∀ q span f, view (.node (g.act q) span f) = made (g.calls (.node (g.act q) span f)))
    (v : QuotedText μ) (rest : Bytes) : Tells view g.rule (g.printValue v) rest
      fun source pos => made (g.valueCalls source v pos) := by
  have inner := ((((mark_tells g.partCalls v.quote _).effect (.push (g.opened v.quote))).seq
    ((g.content_tells v.content rest).effect (.prepare (g.unclosed v.quote)))).seq
      (mark_tells _ v.quote rest)).effect .cancel
  have told : Tells view (g.quoted v.quote) (g.printValue v) rest
      fun source pos => made (g.valueCalls source v pos) := by
    refine inner.action (g.sound _) fun source pos f shown clean => ?_
    have valid := isValid_node (g.act v.quote) (g.sound _) (.ofText source pos (g.printValue v))
      clean
    have calls : g.calls (.node (g.act v.quote) (.ofText source pos (g.printValue v)) f) =
        g.valueCalls source v pos := by
      rw [g.calls_node, shown, valid]
      simp [valueCalls]
    exact (shows _ _ _).trans (congrArg made calls)
  obtain ⟨q, content⟩ := v
  cases q with
  | single => exact told.choiceLeft.choiceLeft
  | double =>
    have other : (g.quoted .single).Rejects (g.printValue ⟨.double, content⟩ ++ rest) := by
      have apart : (CharSet.ofBytes [Quote.single.byte]).contains Quote.double.byte = false := rfl
      exact .action (.effect (.seq (.seq (.effect (.set (bars_cons apart _)) _))) _) _
    exact (told.choiceRight other).choiceLeft

end ValueGrammar

namespace ReferenceText

variable (r : ReferenceText) (rest : Bytes)

variable {view : Tree Action → List Call}
  (shows : ∀ kind span f, view (.node (.reference kind) span f) = [.reference kind span])
include shows

/-- What stands behind the first sign is told by the first kind of reference that fits it. -/
theorem body_tells : Tells view
    (.firstOf [Reference.hex, Reference.digits, Reference.entity]) (r.sign.tail ++ r.payload)
    (Text.utf8 ";" ++ rest) fun source pos =>
      [.reference r.kind (.ofText source (pos + r.sign.tail.length) r.payload)] := by
  cases r with
  | hexDigits number =>
    have barred : Bars hexDigit (Text.utf8 ";" ++ rest) := bars_cons rfl _
    have payload := number.tells barred (fun span => shows .hexDigits span []) rfl
    have told : Tells view Reference.hex _ _ _ :=
      ((Rule.Tells.literal _ _).effect _).seq (payload.effect _)
    exact told.choiceLeft.choiceLeft
  | digits number =>
    have barred : Bars .digit (Text.utf8 ";" ++ rest) := bars_cons rfl _
    have payload := number.tells barred (fun span => shows .digits span []) rfl
    have told : Tells view Reference.digits _ _ _ :=
      (((byte_reads _ _).tells rfl).effect _).seq (payload.effect _)
    refine (Rule.Tells.choiceRight ?_ told).choiceLeft
    have apart := number.bars (t := .ofBytes (Text.utf8 "#x")) rfl
      (Text.utf8 ";" ++ rest)
    have rejects : (Rule.text "#x" : XmlRule).Rejects
        (Text.utf8 "#" ++ (number.bytes ++ (Text.utf8 ";" ++ rest))) :=
      .literal_longer (by decide) (by decide) apart
    exact (rejects.effect _).seq
  | entity name =>
    have barred : Bars nameChar (Text.utf8 ";" ++ rest) := bars_cons rfl _
    have told : Tells view Reference.entity name.bytes _ fun source pos =>
        [.reference .entity (.ofText source pos name.bytes)] :=
      ((name.tells barred fun _ => ([] : List Unit)).spanned _ rfl (shows .entity)).effect _
    refine Rule.Tells.choiceRight ?_ told
    have apart := name.bars (t := .ofBytes (Text.utf8 "#")) rfl
      (Text.utf8 ";" ++ rest)
    exact .choice ((Rule.Rejects.literal_first apart _).effect _).seq
      (Rule.Rejects.effect (.set apart) _).seq

theorem tells : Tells view Reference.rule r.print rest fun source pos => [r.call source pos] := by
  have closing : Tells view (char ';').cancel (Text.utf8 ";") rest _ :=
    ((byte_reads _ _).tells rfl).effect _
  have opening : Tells view
      ((char '&').push (minor "Found start of reference, but not rest of its content."))
      (Text.utf8 "&") (r.sign.tail ++ r.payload ++ Text.utf8 ";" ++ rest) _ :=
    ((byte_reads _ _).tells rfl).effect _
  refine (opening.seq ((r.body_tells rest shows).seq closing).choiceLeft).as ?_
    fun source pos => ?_ <;>
    cases r <;> rfl

end ReferenceText

theorem ReferenceText.call_written (r : ReferenceText) {source : Source} {pos : Nat} {rest : Bytes}
    (faces : Faces source.toList pos (r.print ++ rest)) :
    (r.call source pos).written = r.print := by
  have sign : r.kind.sign = r.sign := by cases r <;> rfl
  rw [print, List.append_assoc, List.append_assoc] at faces
  rw [call, Call.written, ofText_bytes faces.step, sign, print]

theorem Reference.rejects {rest : Bytes} (other : Bars (.ofBytes [0x26]) rest) :
    Reference.rule.Rejects rest :=
  (Rule.Rejects.effect (.set other) _).seq

theorem Bars.sign {b : UInt8} {rest : Bytes} (barred : Bars markupSign rest)
    (sign : markupSign.contains b = true) : Bars (.ofBytes [b]) rest := by
  intro c first member
  obtain rfl := (CharSet.contains_byte b c).mp member
  exact barred c first sign

/-- The values of attributes, with references in them. -/
def AttributeValue.grammar : ValueGrammar ReferenceText where
  markup := Reference.rule
  opened := opened
  unclosed := unclosed
  act := .attributeValue
  skip := ((skipToNul.action .invalid).popAbandoned).sendNow
    (major "Unable to parse attribute value - skipping rest of content.")
  partCalls := partCalls
  calls := calls
  done := .attributeValueDone
  print := ReferenceText.print
  call source r pos := r.call source pos
  sound _ := rfl
  skips := ((skipped_spells _ _).effect _).effect _
  spells := Reference.spells
  tells r rest := r.tells rest fun _ _ _ => rfl
  begins r := by cases r <;> exact ⟨_, _, rfl, rfl⟩
  rejects _ barred := Reference.rejects (barred.sign rfl)
  value _ _ := rfl
  marked _ _ _ := rfl
  written _ r _ _ faces := r.call_written faces
  calls_node _ _ _ := rfl

/-- What may stand in the plain text of an entity value. -/
inductive MarkupText where
  | reference (r : ReferenceText)
  | parameter (name : NameText)

namespace MarkupText

def print : MarkupText → Bytes
  | reference r => r.print
  | parameter name => Text.utf8 "%" ++ name.bytes ++ Text.utf8 ";"

def call (source : Source) (m : MarkupText) (pos : Nat) : Call :=
  match m with
  | reference r => r.call source pos
  | parameter name => .peReference (.ofText source (pos + (Text.utf8 "%").length) name.bytes)

end MarkupText

namespace PeReference

theorem spells : Spells rule (MarkupText.print ∘ .parameter) := by
  have named : Spells ((Name.token.action .peReference).prepare
      (minor "Found name for PE reference, but no ending semicolon.") ++ (char ';').cancel)
      fun name : NameText => name.bytes ++ Text.utf8 ";" :=
    (((name_spells.action _).effect _).seq ((Rule.Spells.byte _).effect _)).map (·.1) fun _ => rfl
  exact (((Rule.Spells.byte _).effect _).seq
    (named.choice (((skipped_spells _ _).effect _).effect _))).map (·.2) fun _ => rfl

theorem rejects {rest : Bytes} (other : Bars (.ofBytes [0x25]) rest) : rule.Rejects rest :=
  (Rule.Rejects.effect (.set other) _).seq

theorem tells (name : NameText) (rest : Bytes) :
    Tells EntityValue.partCalls rule (MarkupText.parameter name).print rest fun source pos =>
      [(MarkupText.parameter name).call source pos] := by
  have barred : Bars nameChar (Text.utf8 ";" ++ rest) := bars_cons rfl _
  have named : Tells EntityValue.partCalls (Name.token.action .peReference) name.bytes
      (Text.utf8 ";" ++ rest) fun source pos => [.peReference (.ofText source pos name.bytes)] :=
    (name.tells barred fun _ => ([] : List Unit)).spanned (fun span => [Call.peReference span]) rfl
      fun _ _ => rfl
  have closing : Tells EntityValue.partCalls (char ';').cancel (Text.utf8 ";") rest _ :=
    ((byte_reads _ _).tells rfl).effect _
  exact ((((byte_reads _ _).tells rfl).effect _).seq
    ((named.effect _).seq closing).choiceLeft).as rfl fun _ _ => rfl

end PeReference

/-- Entity values, with references of both kinds in them. -/
def EntityValue.grammar : ValueGrammar MarkupText where
  markup := Reference.rule ||| PeReference.rule
  opened := opened
  unclosed := unclosed
  act := .entityValue
  skip := ((skipToNul.action .invalid).popAbandoned).sendNow
    (major "Unable to parse entity value - skipping rest of content.")
  partCalls := partCalls
  calls := calls
  done := .entityValueDone
  print := MarkupText.print
  call := MarkupText.call
  sound _ := rfl
  skips := ((skipped_spells _ _).effect _).effect _
  spells := (Reference.spells.map .reference fun _ => rfl).choice
    (PeReference.spells.map .parameter fun _ => rfl)
  tells m rest := by
    cases m with
    | reference r => exact (r.tells rest fun _ _ _ => rfl).choiceLeft
    | parameter name =>
      exact (PeReference.tells name rest).choiceRight (Reference.rejects (bars_cons rfl _))
  begins m := by rcases m with (_ | _ | _) | _ <;> exact ⟨_, _, rfl, rfl⟩
  rejects _ barred :=
    .choice (Reference.rejects (barred.sign rfl)) (PeReference.rejects (barred.sign rfl))
  value _ _ := rfl
  marked _ m _ := by cases m <;> rfl
  written _ m _ _ faces := by
    cases m with
    | reference r => exact r.call_written faces
    | parameter name =>
      simp only [MarkupText.print, List.append_assoc] at faces
      simp only [MarkupText.call, Call.written, ofText_bytes faces.step, MarkupText.print]
  calls_node _ _ _ := rfl

end Backtrack.Xml
