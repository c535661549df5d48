import Backtrack.Proofs.CallStream
import Backtrack.Proofs.Document
import Backtrack.Proofs.RangeExpressions
import Backtrack.Proofs.Reading

/-! Printed lines. Each line of a printed document has one reading: what stands before a delimiter,
an assignment or the line feed cannot be told apart from it in another way, so the content of the
line is one pair or one header, and its call says what was printed. -/
namespace Backtrack.Config

open Grammar

section Bytes

theorem contains_nameStart (b : UInt8) :
    (CharSet.alpha ∪ .ofBytes [0x5F]).contains b = true ↔ NameStart b := by
  rw [CharSet.contains_union, CharSet.contains_alpha, CharSet.contains_byte, or_assoc, NameStart]

theorem contains_namePart (b : UInt8) :
    (CharSet.alnum ∪ .ofBytes [0x5F]).contains b = true ↔ NamePart b := by
  rw [NamePart, ← contains_nameStart, CharSet.contains_union, CharSet.contains_union,
    CharSet.contains_alnum, or_right_comm]

theorem contains_quotable (b : UInt8) :
    (CharSet.printable \ .ofBytes [0x22]).contains b = true ↔ IsPrintable b ∧ b ≠ 0x22 := by
  rw [CharSet.contains_sdiff, CharSet.contains_printable, CharSet.contains_byte, IsPrintable]

theorem blank_iff (b : UInt8) : CharSet.blank.contains b = true ↔ Span.isBlank b = true := by
  simp [CharSet.contains_blank, Span.isBlank]

/-- No blank and no part of a line break. -/
def Solid (b : UInt8) : Prop := Span.isBlank b = false ∧ b ≠ 0x0A ∧ b ≠ 0x0D

instance (b : UInt8) : Decidable (Solid b) := by unfold Solid; infer_instance

theorem IsPunctuation.printable {b : UInt8} (punctuation : IsPunctuation b) : IsPrintable b := by
  unfold IsPunctuation at punctuation
  unfold IsPrintable
  grind

theorem IsPunctuation.solid {b : UInt8} (punctuation : IsPunctuation b) : Solid b := by
  unfold IsPunctuation at punctuation
  unfold Solid Span.isBlank
  grind

theorem NamePart.not_punctuation {b : UInt8} (part : NamePart b) : ¬ IsPunctuation b := by
  unfold NamePart NameStart at part
  unfold IsPunctuation
  grind

theorem NamePart.solid {b : UInt8} (part : NamePart b) : Solid b := by
  unfold NamePart NameStart at part
  unfold Solid Span.isBlank
  grind

/-- A name begins what it stands at the beginning of. -/
theorem IsName.head {name : Bytes} (named : IsName name) (rest : Bytes) :
    ∀ b ∈ (name ++ rest).head?, NamePart b := by
  obtain ⟨first, tail, rfl, start, -⟩ := named.begins
  rintro b ⟨⟩
  exact .inl start

end Bytes

namespace Policy.Punctual

variable {p : Policy} (punctual : p.Punctual)
include punctual

theorem plain : p.Plain where
  filled := punctual.filled
  printable d member b inside :=
    (CharSet.contains_printable b).mpr (punctual.punctuation d member b inside).printable

variable {d : String × String} (member : d ∈ p.delimiters) {rest : Bytes}
include member

theorem delimiter_begins : ∃ c tail, Text.utf8 d.2 = c :: tail ∧ IsPunctuation c := by
  obtain ⟨c, tail, same⟩ := List.exists_cons_of_ne_nil (punctual.filled d member)
  exact ⟨c, tail, same, punctual.punctuation d member c (same ▸ List.mem_cons_self ..)⟩

theorem head_punctuation : ∀ b ∈ (Text.utf8 d.2 ++ rest).head?, IsPunctuation b := by
  obtain ⟨c, tail, same, punctuation⟩ := punctual.delimiter_begins member
  rw [same]
  rintro b ⟨⟩
  exact punctuation

/-- A delimiter does not stand where no punctuation does. -/
theorem rejects (other : ∀ b ∈ rest.head?, ¬ IsPunctuation b) :
    (Rule.text d.2 : ConfigRule).Rejects rest := by
  obtain ⟨c, tail, same, punctuation⟩ := punctual.delimiter_begins member
  refine .literal ?_
  rintro ⟨behind, rfl⟩
  exact other c (by simp [same]) punctuation

theorem rejects_lineFeed : (Rule.text d.2 : ConfigRule).Rejects [0x0A] := by
  refine punctual.rejects member ?_
  rintro b ⟨⟩
  decide

end Policy.Punctual

section Pieces

variable {rest : Bytes}

theorem alnumName_reads {name : Bytes} (named : IsName name)
    (last : ∀ b ∈ rest.head?, ¬ NamePart b) : alnumName.Reads name rest := by
  obtain ⟨first, tail, rfl, start, parts⟩ := named.begins
  have head : (Rule.set (.alpha ∪ .ofBytes [0x5F]) : ConfigRule).Reads [first] (tail ++ rest) :=
    .set ((contains_nameStart first).mpr start) _
  have others : (Rule.many (.set (.alnum ∪ .ofBytes [0x5F])) : ConfigRule).Reads tail rest :=
    .many_set (fun b member => (contains_namePart b).mpr (parts b member))
      fun b member part => last b member ((contains_namePart b).mp part)
  exact head.seq others

theorem blanks_reads {gap : Bytes} (blank : ∀ b ∈ gap, Span.isBlank b = true)
    (last : ∀ b ∈ rest.head?, Span.isBlank b = false) : blanks.Reads gap rest :=
  .many_set (fun b member => (blank_iff b).mpr (blank b member))
    fun b member more => by
      rw [blank_iff, last b member] at more
      exact Bool.false_ne_true more

theorem quoteMark_reads (rest : Bytes) : quoteMark.Reads [0x22] rest :=
  .set rfl rest

/-- A bare value does not begin with a quote. -/
theorem quoteMark_rejects {bytes : Bytes} (bare : bytes.head? ≠ some 0x22) :
    quoteMark.Rejects (bytes ++ [0x0A]) := by
  refine .set fun b first quote => ?_
  obtain rfl := (CharSet.contains_byte 0x22 b).mp quote
  cases bytes with
  | nil => cases first
  | cons c rest => exact bare first

theorem text_rejects_lineFeed : text.Rejects (0x0A :: rest) := by
  refine .set fun c first => ?_
  obtain rfl : 0x0A = c := Option.some.inj first
  decide +kernel

end Pieces

namespace Policy.Punctual

variable {p : Policy} (punctual : p.Punctual) {l : Layout} (blank : l.Blank) {rest : Bytes}
include punctual

/-- What begins with a gap and a delimiter does not go on with a name. -/
theorem not_namePart_of_gap {d : String × String} (member : d ∈ p.delimiters) {gap : Bytes}
    (blank : ∀ b ∈ gap, Span.isBlank b = true) :
    ∀ b ∈ (gap ++ (Text.utf8 d.2 ++ rest)).head?, ¬ NamePart b := by
  intro b first
  cases gap with
  | nil => exact fun part => part.not_punctuation (punctual.head_punctuation member b first)
  | cons c gap =>
    obtain rfl : c = b := Option.some.inj first
    intro part
    have solid := part.solid.1
    rw [blank c (List.mem_cons_self ..)] at solid
    cases solid

include blank

theorem assignment_reads (last : ∀ b ∈ rest.head?, Span.isBlank b = false) :
    (assignment p).Reads (l.beforeAssign ++ Text.utf8 p.assign ++ l.afterAssign) rest := by
  have before : blanks.Reads l.beforeAssign (Text.utf8 p.assign ++ (l.afterAssign ++ rest)) :=
    blanks_reads blank.beforeAssign fun b first =>
      (punctual.head_punctuation p.assign_mem b first).solid.1
  have assign : (Rule.text p.assign : ConfigRule).Reads (Text.utf8 p.assign)
      (l.afterAssign ++ rest) := Rule.Reads.literal _ _
  exact (before.seq assign).seq (blanks_reads blank.afterAssign last)

end Policy.Punctual

section Trimming

/-- Nothing is stripped from a text that neither begins nor ends with a blank. -/
theorem trimBlanks_solid {span : Span} (first : ∀ b ∈ span.bytes.head?, Span.isBlank b = false)
    (last : ∀ b ∈ span.bytes.getLast?, Span.isBlank b = false) : span.trimBlanks = span := by
  have kept := Span.Unindented.kept first
  have taken : span.bytes.reverse.takeWhile Span.isBlank = [] := by
    cases bytes : span.bytes.reverse with
    | nil => rfl
    | cons b rest =>
      have solid := last b (by rw [← List.head?_reverse, bytes]; rfl)
      rw [List.takeWhile_cons_of_neg (by simp [solid])]
  obtain ⟨-, -, start, stop⟩ := span.trimBlanks_ends
  rw [kept, span.length_bytes, Nat.sub_self] at start
  rw [kept, taken] at stop
  exact Span.ext_ends rfl start stop

theorem trimmed_solid {p : Policy} {span : Span}
    (first : ∀ b ∈ span.bytes.head?, Span.isBlank b = false)
    (last : ∀ b ∈ span.bytes.getLast?, Span.isBlank b = false) : trimmed p span = span := by
  unfold trimmed
  split
  · exact trimBlanks_solid first last
  · rfl

/-- Nothing is stripped from a name. -/
theorem trimmed_name {p : Policy} {span : Span} (named : IsName span.bytes) :
    trimmed p span = span := by
  obtain ⟨first, rest, same, start, parts⟩ := named.begins
  have solid (b : UInt8) (member : b ∈ span.bytes) : Span.isBlank b = false := by
    rw [same] at member
    rcases List.mem_cons.mp member with rfl | member
    · exact (NamePart.solid (.inl start)).1
    · exact (parts b member).solid.1
  exact trimmed_solid (fun b first => solid b (List.mem_of_mem_head? first))
    fun b last => solid b (List.mem_of_getLast? last)

end Trimming

/-- A forest that shows a value, or that there is none, and neither a key nor a defect. -/
structure ShowsValue (p : Policy) (f : List (Tree Action)) (value : Option Bytes) : Prop where
  value : (f.filterMap (value? p)).getLast?.map Span.bytes = value
  noKey : f.filterMap (key? p) = []
  closed : f.any (·.action == .unclosedQuote) = false
  clean : Tree.defects isDefect f = 0

theorem ShowsValue.none (p : Policy) : ShowsValue p [] .none := ⟨rfl, rfl, rfl, rfl⟩

section Values

variable {p : Policy} {source : Source} {stop pos : Nat}

/-- A delimiter does not stand in a value that does not contain it, also at its end. -/
theorem Policy.Plain.rejects_outside (plain : p.Plain) {d : String × String}
    (member : d ∈ p.delimiters) {bytes rest : Bytes} (outside : ¬ Text.utf8 d.2 <:+: bytes)
    (suffix : rest <:+ bytes) : (Rule.text d.2 : ConfigRule).Rejects (rest ++ [0x0A]) := by
  refine .literal fun here => outside ?_
  have inside := (prefix_line_iff (plain.no_lineFeed member) rest []).mp here
  exact inside.isInfix.trans suffix.isInfix

theorem Policy.Plain.bareValue_derives (plain : p.Plain) {bytes : Bytes}
    (fits : (SettingValue.bare bytes).Fits p)
    (faces : Faces (inputUpTo source stop) pos (bytes ++ [0x0A])) :
    ∃ f, Derives source stop (bareValue p) pos (pos + bytes.length) f ∧
      ShowsValue p f (some bytes) := by
  obtain ⟨printable, first, last, -, noLine, noBlock⟩ := fits
  have each (c : UInt8) (z : Bytes) (suffix : c :: z <:+ bytes) :
      (text \ (.text p.blockCommentStart ||| .text p.lineComment)).Reads [c] (z ++ [0x0A]) := by
    have member : c ∈ bytes := suffix.subset (List.mem_cons_self ..)
    refine .difference (.set ((CharSet.contains_printable c).mpr (printable c member)) _) ?_
    exact .choice (plain.rejects_outside p.blockCommentStart_mem noBlock suffix)
      (plain.rejects_outside p.lineComment_mem noLine suffix)
  have reads : (Rule.many (text \ (.text p.blockCommentStart ||| .text p.lineComment))).Reads bytes
      [0x0A] := .many each (.difference text_rejects_lineFeed)
  obtain ⟨span, same, derives⟩ := reads.marks rfl faces .value
  subst same
  refine ⟨_, derives, ?_, rfl, rfl, rfl⟩
  exact congrArg (some ∘ Span.bytes) (trimmed_solid first last)

theorem quotedValue_derives {bytes : Bytes} (fits : (SettingValue.quoted bytes).Fits p)
    (faces : Faces (inputUpTo source stop) pos ([0x22] ++ bytes ++ [0x22] ++ [0x0A])) :
    ∃ f, Derives source stop (value p) pos (pos + ([0x22] ++ bytes ++ [0x22]).length) f ∧
      ShowsValue p f (some bytes) := by
  obtain ⟨quotes, inside⟩ := fits
  have opening : quoteMark.Reads [0x22] (bytes ++ ([0x22] ++ [0x0A])) := quoteMark_reads _
  have content : (Rule.many (.set (.printable \ .ofBytes [0x22])) : ConfigRule).Reads bytes
      ([0x22] ++ [0x0A]) := by
    refine .many_set (fun b member => (contains_quotable b).mpr (inside b member)) ?_
    rintro b ⟨⟩
    decide +kernel
  have closing : quoteMark.Reads [0x22] [0x0A] := quoteMark_reads _
  simp only [List.append_assoc] at faces
  have first := opening.derives rfl faces
  obtain ⟨span, same, second⟩ := content.marks rfl faces.step .quotedValue
  have third := closing.derives rfl faces.step.step
  refine ⟨[.node .quotedValue span []], ?_, congrArg some same, rfl, rfl, rfl⟩
  rw [value, if_pos quotes, List.length_append, List.length_append, ← Nat.add_assoc,
    ← Nat.add_assoc]
  exact .choiceLeft (Derives.seq first (.choiceLeft (.seq second third)))

theorem Policy.Plain.value_derives (plain : p.Plain) {v : SettingValue} (fits : v.Fits p)
    (faces : Faces (inputUpTo source stop) pos (v.print ++ [0x0A])) :
    ∃ f, Derives source stop (value p) pos (pos + v.print.length) f ∧
      ShowsValue p f (some v.bytes) := by
  cases v with
  | quoted bytes => exact quotedValue_derives fits faces
  | bare bytes =>
    obtain ⟨f, derives, shows⟩ := plain.bareValue_derives fits faces
    refine ⟨f, ?_, shows⟩
    obtain ⟨-, -, -, bare, -⟩ := fits
    rw [value]
    split
    · exact .choiceRight (.seqFail (quoteMark_rejects bare _ _ faces)) derives
    · exact derives

end Values

/-- The forest of a line without a defect, for which the calls say what the line says. -/
structure ShowsLine (p : Policy) (f : List (Tree Action)) (line : Line) : Prop where
  clean : Tree.defects isDefect f = 0
  said : ∀ inSection, (calls p inSection f).map Call.saying = [line.saying inSection]

section Calls

variable {p : Policy}

theorem pair?_shown {f : List (Tree Action)} {shown : Option Bytes} (shows : ShowsValue p f shown)
    {name : Span} (named : IsName name.bytes) :
    ∃ value, pair? p (.node .key name [] :: f) = some (name, value) ∧
      value.map Span.bytes = shown := by
  refine ⟨(f.filterMap (value? p)).getLast?, ?_, shows.value⟩
  have trimmed := trimmed_name (p := p) named
  have closed : (Tree.node Action.key name [] :: f).any (·.action == .unclosedQuote) = false := by
    rw [List.any_cons, shows.closed]
    rfl
  simp only [pair?, closed, Bool.false_eq_true, if_false]
  simp [shows.noKey, key?, value?, Tree.action, Tree.span, trimmed]

/-- The call for a pair says its key and its value. -/
theorem calls_pair {f : List (Tree Action)} {shown : Option Bytes} (shows : ShowsValue p f shown)
    {name : Span} (named : IsName name.bytes) (span : Span) (inSection : Bool) :
    (calls p inSection [.node .keyValue span (.node .key name [] :: f)]).map Call.saying =
      [if inSection then .sectionKey name.bytes shown else .globalKey name.bytes shown] := by
  obtain ⟨value, pair, rfl⟩ := pair?_shown shows named
  rw [calls]
  simp only [Tree.action, Tree.children, pair, calls]
  cases inSection <;> rfl

end Calls

section Pairs

variable {p : Policy} (punctual : p.Punctual) {l : Layout} (blank : l.Blank) {source : Source}
  {stop pos : Nat} {rest : Bytes}

/-- What neither comment begins with is no comment. -/
theorem comments_reject (noBlock : (Rule.text p.blockCommentStart : ConfigRule).Rejects rest)
    (noLine : (Rule.text p.lineComment : ConfigRule).Rejects rest) :
    (blockComment p).Rejects rest ∧ (lineComment p).Rejects rest :=
  ⟨.seq (.effect noBlock _), .seq (.seq noLine)⟩

theorem SettingValue.Fits.head {v : SettingValue} (fits : v.Fits p) :
    ∀ b ∈ (v.print ++ [0x0A]).head?, Span.isBlank b = false := by
  intro b first
  cases v with
  | quoted bytes =>
    obtain rfl : 0x22 = b := Option.some.inj first
    rfl
  | bare bytes =>
    obtain ⟨-, solid, -⟩ := fits
    cases bytes with
    | nil =>
      obtain rfl : 0x0A = b := Option.some.inj first
      rfl
    | cons c bytes => exact solid b first

include punctual blank

theorem Policy.Punctual.assigned_derives {v : Option SettingValue}
    (fits : ∀ value ∈ v, value.Fits p)
    (faces : Faces (inputUpTo source stop) pos (printAssigned p l v ++ [0x0A])) :
    ∃ f, Derives source stop (.optional (assignment p ++ value p)) pos
        (pos + (printAssigned p l v).length) f ∧
      ShowsValue p f (v.map (·.bytes)) := by
  cases v with
  | none =>
    have blanks : blanks.Reads [] [0x0A] := blanks_reads nofun (by rintro b ⟨⟩; rfl)
    have noAssign := punctual.rejects_lineFeed p.assign_mem
    have rejects : (assignment p ++ value p).Rejects [0x0A] :=
      .seq (.seq (.seqSecond (x := []) blanks noAssign))
    exact ⟨[], .optionalFail (rejects _ _ faces), .none p⟩
  | some v =>
    rw [printAssigned, List.append_assoc] at faces
    have fits := fits v rfl
    have assigns := punctual.assignment_reads blank fits.head
    obtain ⟨f, derives, shows⟩ := punctual.plain.value_derives fits faces.step
    refine ⟨f, ?_, shows⟩
    rw [printAssigned, List.length_append, ← Nat.add_assoc]
    exact .optional (Derives.seq (assigns.derives rfl faces) derives)

/-- A key ends where the line or an assignment begins. -/
theorem Policy.Punctual.not_namePart_of_assigned (v : Option SettingValue) :
    ∀ b ∈ (printAssigned p l v ++ [0x0A]).head?, ¬ NamePart b := by
  cases v with
  | none =>
    rintro b ⟨⟩
    decide
  | some value =>
    simp only [printAssigned, List.append_assoc]
    exact punctual.not_namePart_of_gap p.assign_mem blank.beforeAssign

/-- The derivation of a pair. -/
theorem Policy.Punctual.pair_derives {s : Setting} (fits : s.Fits p)
    (faces : Faces (inputUpTo source stop) pos (s.print p l ++ [0x0A])) :
    ∃ f, Derives source stop (keyValue p) pos (pos + (s.print p l).length) f ∧
      ShowsLine p f (.setting s) := by
  have inside := faces.inside
  rw [Setting.print, List.append_assoc] at faces
  have name : alnumName.Reads s.key (printAssigned p l s.value ++ [0x0A]) :=
    alnumName_reads fits.key (punctual.not_namePart_of_assigned blank s.value)
  obtain ⟨shown, same, keyed⟩ := name.marks rfl faces .key
  obtain ⟨f, assigned, shows⟩ := punctual.assigned_derives blank fits.value faces.step
  have noBlock := punctual.rejects_lineFeed p.blockCommentStart_mem
  have noLine := punctual.rejects_lineFeed p.lineComment_mem
  have noComment := comments_reject noBlock noLine
  have ended := (Rule.Rejects.choice noComment.2 noComment.1) _ _ faces.step.step
  have pair := Derives.seq (.seq keyed assigned) (.optionalFail ended)
  obtain ⟨span, -, -, -, marked⟩ := pair.marked inside .keyValue
  have named : IsName shown.bytes := same ▸ fits.key
  refine ⟨[.node .keyValue span (.node .key shown [] :: f)], ?_, ?_, fun inSection => ?_⟩
  · rw [keyValue, key, if_pos punctual.alnumNames, Setting.print, List.length_append,
      ← Nat.add_assoc]
    rw [List.append_nil] at marked
    exact marked
  · rw [Tree.defects_node, ← List.singleton_append, Tree.defects_append, shows.clean]
    rfl
  · rw [calls_pair shows named, same]
    rfl

/-- The content of the line of a setting. -/
theorem Policy.Punctual.setting_derives {s : Setting} (fits : s.Fits p)
    (faces : Faces (inputUpTo source stop) pos (s.print p l ++ [0x0A])) :
    ∃ f, Derives source stop (content p) pos (pos + (s.print p l).length) f ∧
      ShowsLine p f (.setting s) := by
  have named : ∀ b ∈ (s.print p l ++ [0x0A]).head?, NamePart b := by
    rw [Setting.print, List.append_assoc]
    exact fits.key.head _
  have rejects {d : String × String} (member : d ∈ p.delimiters) :
      (Rule.text d.2 : ConfigRule).Rejects (s.print p l ++ [0x0A]) :=
    punctual.rejects member fun b first => (named b first).not_punctuation
  have noBlock := rejects p.blockCommentStart_mem
  have noLine := rejects p.lineComment_mem
  have noStart := rejects p.sectionStart_mem
  have noComment := comments_reject noBlock noLine
  have noHeader : (sectionHeader p).Rejects (s.print p l ++ [0x0A]) :=
    .seq (.effect (.seq noStart) _)
  have others := Rule.Rejects.choice (.choice noComment.1 noComment.2) noHeader
  obtain ⟨f, derives, shows⟩ := punctual.pair_derives blank fits faces
  exact ⟨f, .choiceLeft (.choiceRight (others _ _ faces) derives), shows⟩

end Pairs

section Headers

variable {p : Policy} (punctual : p.Punctual) {l : Layout} (blank : l.Blank) {source : Source}
  {stop pos : Nat} {name : Bytes}

include punctual blank

/-- The derivation of a header. -/
theorem Policy.Punctual.header_derives (named : IsName name)
    (faces : Faces (inputUpTo source stop) pos (printHeader p l name ++ [0x0A])) :
    ∃ f, Derives source stop (sectionHeader p) pos (pos + (printHeader p l name).length) f ∧
      ShowsLine p f (.header name) := by
  let ending := l.afterName ++ (Text.utf8 p.sectionEnd ++ [0x0A])
  simp only [printHeader, List.append_assoc] at faces
  have opening : (Rule.text p.sectionStart ++ blanks).Reads
      (Text.utf8 p.sectionStart ++ l.beforeName) (name ++ ending) :=
    .seq (.literal _ _) (blanks_reads blank.beforeName fun b first =>
      (named.head ending b first).solid.1)
  have content : alnumName.Reads name ending :=
    alnumName_reads named (punctual.not_namePart_of_gap p.sectionEnd_mem blank.afterName)
  have closing : (blanks ++ Rule.text p.sectionEnd).Reads (l.afterName ++ Text.utf8 p.sectionEnd)
      [0x0A] := by
    refine .seq (blanks_reads blank.afterName fun b first => ?_) (.literal _ _)
    exact (punctual.head_punctuation p.sectionEnd_mem b first).solid.1
  rw [← List.append_assoc] at faces
  have first := opening.derives rfl faces
  obtain ⟨shown, same, second⟩ := content.marks rfl faces.step .sectionName
  have behind := faces.step.step
  rw [← List.append_assoc] at behind
  have third := closing.derives rfl behind
  refine ⟨[.node .sectionName shown []], ?_, rfl, fun inSection => ?_⟩
  · have length : pos + (printHeader p l name).length =
        pos + (Text.utf8 p.sectionStart ++ l.beforeName).length + name.length +
          (l.afterName ++ Text.utf8 p.sectionEnd).length := by
      simp only [printHeader, List.length_append]
      omega
    rw [length, sectionHeader, sectionName, if_pos punctual.alnumNames]
    exact .seq (.effect first) (.choiceLeft (.seq (.effect (.effect second)) (.effect third)))
  · rw [calls]
    simp [Tree.action, Tree.span, trimmed_name (same ▸ named), calls, Call.saying, same,
      Line.saying]

/-- The content of the line of a header. -/
theorem Policy.Punctual.section_derives (named : IsName name)
    (faces : Faces (inputUpTo source stop) pos (printHeader p l name ++ [0x0A])) :
    ∃ f, Derives source stop (content p) pos (pos + (printHeader p l name).length) f ∧
      ShowsLine p f (.header name) := by
  have begins : printHeader p l name ++ [0x0A] = Text.utf8 p.sectionStart ++
      (l.beforeName ++ name ++ l.afterName ++ Text.utf8 p.sectionEnd ++ [0x0A]) := by
    simp [printHeader]
  obtain ⟨fromLine, rest⟩ := List.pairwise_cons.mp punctual.apart
  have fromBlock := (List.pairwise_cons.mp rest).1
  have noComment : (blockComment p).Rejects (printHeader p l name ++ [0x0A]) ∧
      (Grammar.lineComment p).Rejects (printHeader p l name ++ [0x0A]) := by
    rw [begins]
    refine comments_reject (.literal_apart ?_ _) (.literal_apart ?_ _)
    · exact fromBlock ("section start", p.sectionStart) (by simp)
    · exact fromLine ("section start", p.sectionStart) (by simp)
  obtain ⟨f, derives, shows⟩ := punctual.header_derives blank named faces
  have others := Rule.Rejects.choice noComment.1 noComment.2
  exact ⟨f, .choiceLeft (.choiceLeft (.choiceRight (others _ _ faces) derives)), shows⟩

end Headers

section Lines

variable {rest : Bytes}

theorem gap_rejects (solid : ∀ b ∈ rest.head?, Solid b) : gap.Rejects rest := by
  have noBlank : (Rule.set .blank : ConfigRule).Rejects rest := by
    refine .set fun b first blank => ?_
    have not := (solid b first).1
    rw [(blank_iff b).mp blank] at not
    cases not
  have noReturn : (Rule.byte 0x0D : ConfigRule).Rejects rest :=
    .set fun b first member => (solid b first).2.2 ((CharSet.contains_byte ..).mp member)
  have noFeed : (Rule.byte 0x0A : ConfigRule).Rejects rest :=
    .set fun b first member => (solid b first).2.1 ((CharSet.contains_byte ..).mp member)
  exact .choice noBlank (.seqSecond (x := []) noReturn.optional noFeed)

theorem gap_reads_lineFeed : gap.Reads [0x0A] rest := by
  have noBlank : (Rule.set .blank : ConfigRule).Rejects ([0x0A] ++ rest) := by
    refine .set ?_
    rintro b ⟨⟩
    exact Bool.false_ne_true
  have noReturn : (Rule.byte 0x0D : ConfigRule).Rejects ([0x0A] ++ rest) := by
    refine .set ?_
    rintro b ⟨⟩
    exact Bool.false_ne_true
  exact .choiceRight noBlank (.seq (x := []) noReturn.optional (.set rfl rest))

/-- A text of one line is that line. -/
theorem fileLines_of_content {p : Policy} {source : Source} {text : Bytes} {f : List (Tree Action)}
    (begins : ∀ b ∈ (text ++ [0x0A]).head?, Solid b)
    (derives : Derives source source.size (content p) 0 text.length f)
    (whole : source.toList = text ++ [0x0A]) : FileLines p source source.size 0 f := by
  have input : inputUpTo source source.size = text ++ [0x0A] := (inputUpTo_size source).trans whole
  have start := Faces.start whole
  have before : spacing.Reads [] (text ++ [0x0A]) := (gap_rejects begins).many
  have behind : spacing.Reads [0x0A] [] := by
    refine .many (fun c z suffix => ?_) (gap_rejects nofun)
    obtain ⟨rfl, rfl⟩ : c = 0x0A ∧ z = [] := by simpa [List.suffix_cons_iff] using suffix
    exact gap_reads_lineFeed
  have first := before _ _ start
  have last := behind _ _ start.step
  have length : (inputUpTo source source.size).length =
      0 + text.length + ([0x0A] : Bytes).length := by
    simp [input]
  rw [← length, Nat.zero_add] at last
  have lines := FileLines.more first derives (.ends last)
  rwa [List.append_nil] at lines

end Lines

section Contents

variable {p : Policy} (punctual : p.Punctual) {l : Layout} (blank : l.Blank) {line : Line}
  (fits : line.Fits p) {source : Source}
include punctual fits

/-- No line begins with a blank or a line break. -/
theorem Policy.Punctual.line_begins : ∀ b ∈ (line.print p l).head?, Solid b := by
  cases line with
  | setting s =>
    simp only [Line.print, Line.text, Setting.print, List.append_assoc]
    exact fun b first => (fits.key.head _ b first).solid
  | header name =>
    simp only [Line.print, Line.text, printHeader, List.append_assoc]
    exact fun b first => (punctual.head_punctuation p.sectionStart_mem b first).solid

include blank

theorem Policy.Punctual.content_derives {stop pos : Nat}
    (faces : Faces (inputUpTo source stop) pos (line.print p l)) :
    ∃ f, Derives source stop (content p) pos (pos + (line.text p l).length) f ∧
      ShowsLine p f line := by
  cases line with
  | setting s => exact punctual.setting_derives blank fits faces
  | header name => exact punctual.section_derives blank fits faces

/-- The journal of a printed line. -/
theorem Policy.Punctual.line_shown (whole : source.toList = line.print p l) :
    ∃ f, FileLines p source source.size 0 f ∧ ShowsLine p f line := by
  obtain ⟨f, derives, shows⟩ := punctual.content_derives blank fits (.start whole)
  rw [Nat.zero_add] at derives
  exact ⟨f, fileLines_of_content (punctual.line_begins fits) derives whole, shows⟩

end Contents

end Backtrack.Config
