import Backtrack.Proofs.Inversion
import Backtrack.Proofs.Locality
import Backtrack.Proofs.Verdicts
import Backtrack.Config.Grammar

/-! A config file as its lines. Between blanks and line breaks stand the contents of lines, none of
them empty, and a derivation of the root rule is the list of theirs. As no content looks past its
line, the lines of two texts put together are the lines of the one and then those of the other. -/
namespace Backtrack

variable {α : Type}

/-- Every match of the rule takes a byte. -/
def Rule.eats : Rule α → Bool
  | literal bytes => !bytes.isEmpty
  | set _ | skipTo _ | nothing => true
  | seq a b => a.eats || b.eats
  | choice a b => a.eats && b.eats
  | difference a _ | many1 a | action a _ | effect a _ => a.eats
  | empty | endOfInput | optional _ | many _ => false

/-- No action stands in the rule. -/
def Rule.unmarked : Rule α → Bool
  | seq a b | choice a b => a.unmarked && b.unmarked
  | difference a _ | optional a | many a | many1 a | effect a _ => a.unmarked
  | action _ _ => false
  | _ => true

@[simp] theorem Rule.append_eq (a b : Rule α) : a ++ b = .seq a b := rfl
@[simp] theorem Rule.or_eq (a b : Rule α) : (a ||| b) = .choice a b := rfl
@[simp] theorem Rule.sdiff_eq (a b : Rule α) : a \ b = .difference a b := rfl

theorem Recognizes.eats {input : Bytes} {rule : Rule α} {pos next : Nat}
    (h : Recognizes input rule pos (some next)) (inside : pos ≤ input.length)
    (eats : rule.eats = true) : pos < next := by
  generalize matched : some next = m at h
  induction h generalizing next with
  | @leaf rule pos _ found =>
    subst matched
    have onward := (Rule.leaf?_advances found inside).1
    refine Nat.lt_of_le_of_ne onward ?_
    rintro rfl
    cases rule <;> simp only [Rule.leaf?, Rule.eats, Option.some.injEq, reduceCtorEq] at found eats
    case literal bytes =>
      split at found <;> cases bytes <;> simp_all
    case set => split at found <;> simp_all
    case skipTo =>
      obtain ⟨offset, -, same⟩ := Option.map_eq_some_iff.mp found
      omega
  | seqFail | differenceFail => cases matched
  | seq first second ih₁ ih₂ =>
    have onward := first.advances inside
    subst matched
    have further := second.advances onward.2
    simp only [Rule.eats, Bool.or_eq_true] at eats
    rcases eats with eats | eats
    · exact Nat.lt_of_lt_of_le (ih₁ inside eats rfl) further.1
    · exact Nat.lt_of_le_of_lt onward.1 (ih₂ onward.2 eats rfl)
  | choiceLeft _ ih =>
    simp only [Rule.eats, Bool.and_eq_true] at eats
    exact ih inside eats.1 matched
  | choiceRight _ _ _ ih =>
    simp only [Rule.eats, Bool.and_eq_true] at eats
    exact ih inside eats.2 matched
  | difference _ _ ih _ =>
    split at matched <;> cases matched
    exact ih inside eats rfl
  | optional | manyEnd | manyNext => cases eats
  | many1End _ last ih => exact ih inside eats matched
  | many1Next first apart rest ih _ =>
    have onward := first.advances inside
    subst matched
    have further := rest.advances onward.2
    omega
  | action _ ih | effect _ ih => exact ih inside eats matched

theorem Derives.unmarked {source : Source} {stop : Nat} {rule : Rule α} {pos next : Nat}
    {f : List (Tree α)} (h : Derives source stop rule pos next f) (plain : rule.unmarked = true) :
    f = [] := by
  induction h with
  | leaf | optionalFail | manyFail => rfl
  | seq _ _ ih₁ ih₂ =>
    simp only [Rule.unmarked, Bool.and_eq_true] at plain
    rw [ih₁ plain.1, ih₂ plain.2, List.append_nil]
  | choiceLeft _ ih | choiceRight _ _ ih =>
    simp only [Rule.unmarked, Bool.and_eq_true] at plain
    first | exact ih plain.1 | exact ih plain.2
  | difference _ _ _ ih | optional _ ih | manyEmpty _ ih | many1Empty _ ih | effect _ ih =>
    exact ih plain
  | manyNext _ _ _ ih₁ ih₂ | many1Next _ _ _ ih₁ ih₂ =>
    rw [ih₁ plain, ih₂ plain, List.append_nil]
  | action => cases plain

theorem inputUpTo_size (source : Source) : inputUpTo source source.size = source.toList := by
  simp [inputUpTo]

namespace Config

/-- No delimiter is empty. -/
def Policy.Filled (p : Policy) : Prop := ∀ d ∈ p.delimiters, Text.utf8 d.2 ≠ []

/-- Delimiters that a grammar can be built from: none is empty, and all their bytes are printable
ASCII. -/
structure Policy.Plain (p : Policy) : Prop where
  filled : p.Filled
  printable : ∀ d ∈ p.delimiters, ∀ b ∈ Text.utf8 d.2, CharSet.printable.contains b = true

namespace Policy

theorem lineComment_mem (p : Policy) : ("line comment", p.lineComment) ∈ p.delimiters := by
  simp [delimiters]

theorem blockCommentStart_mem (p : Policy) :
    ("block comment start", p.blockCommentStart) ∈ p.delimiters := by
  simp [delimiters]

theorem blockCommentEnd_mem (p : Policy) :
    ("block comment end", p.blockCommentEnd) ∈ p.delimiters := by
  simp [delimiters]

theorem sectionStart_mem (p : Policy) : ("section start", p.sectionStart) ∈ p.delimiters := by
  simp [delimiters]

theorem sectionEnd_mem (p : Policy) : ("section end", p.sectionEnd) ∈ p.delimiters := by
  simp [delimiters]

theorem assign_mem (p : Policy) : ("assignment", p.assign) ∈ p.delimiters := by
  simp [delimiters]

end Policy

namespace Grammar

/-- What stands on a line, without the blanks and line breaks behind it. -/
def content (p : Policy) : ConfigRule :=
  .firstOf [blockComment p, lineComment p, sectionHeader p, keyValue p, badLine]

/-- A blank or a line break. -/
def gap : ConfigRule := .set .blank ||| endOfLine

theorem line_eq (p : Policy) : line p = .seq (content p) spacing := rfl

theorem root_eq (p : Policy) : root p = .seq (.seq spacing (.many (line p))) .endOfInput := rfl

theorem key_eats (p : Policy) : (key p).eats = true := by
  unfold key
  split <;> rfl

theorem sectionName_eats (p : Policy) : (sectionName p).eats = true := by
  unfold sectionName
  split <;> rfl

end Grammar

theorem Policy.Filled.content_eats {p : Policy} (filled : p.Filled) :
    (Grammar.content p).eats = true := by
  have lineComment := filled _ p.lineComment_mem
  have blockComment := filled _ p.blockCommentStart_mem
  have sectionStart := filled _ p.sectionStart_mem
  have key := Grammar.key_eats p
  simp [Grammar.content, Rule.firstOf, Rule.eats, Grammar.blockComment, Grammar.lineComment,
    Grammar.sectionHeader, Grammar.keyValue, Rule.inOrder, Grammar.badLine, Rule.text, Rule.push,
    Rule.sendNow, Grammar.text, key, lineComment, blockComment, sectionStart]

namespace Grammar

theorem text_inline : text.inline = true := by
  have printable : CharSet.printable.contains 0x0A = false := by decide +kernel
  simp [text, Rule.inline, printable]

theorem alnumName_inline : alnumName.inline = true := by
  have first : (CharSet.alpha ∪ .ofBytes [0x5F]).contains 0x0A = false := rfl
  have later : (CharSet.alnum ∪ .ofBytes [0x5F]).contains 0x0A = false := rfl
  simp [alnumName, Rule.inline, first, later]

theorem blanks_inline : blanks.inline = true := by
  have blank : CharSet.blank.contains 0x0A = false := rfl
  simp [blanks, Rule.inline, blank]

theorem endOfLine_nearby : endOfLine.nearby = true := by
  have returns : (CharSet.ofBytes [0x0D]).contains 0x0A = false := rfl
  simp [endOfLine, Rule.byte, Rule.inline, Rule.nearby, returns]

end Grammar

namespace Policy.Plain

open Grammar

variable {p : Policy} (plain : p.Plain)
include plain

theorem no_lineFeed {d : String × String} (member : d ∈ p.delimiters) :
    0x0A ∉ Text.utf8 d.2 := by
  intro fed
  have printable := plain.printable d member 0x0A fed
  revert printable
  decide +kernel

theorem assignment_inline : (assignment p).inline = true := by
  have assign := plain.no_lineFeed p.assign_mem
  have blank : CharSet.blank.contains 0x0A = false := rfl
  simp [assignment, blanks, Rule.text, Rule.inline, blank, assign]

theorem key_inline : (key p).inline = true := by
  have sectionStart := plain.no_lineFeed p.sectionStart_mem
  unfold key
  split
  · exact alnumName_inline
  · have assignment := Rule.nearby_of_inline plain.assignment_inline
    simp [Rule.text, Rule.inline, Rule.nearby, text_inline, assignment, sectionStart]

theorem sectionName_inline : (sectionName p).inline = true := by
  have sectionStart := plain.no_lineFeed p.sectionStart_mem
  have sectionEnd := plain.no_lineFeed p.sectionEnd_mem
  unfold sectionName
  split
  · exact alnumName_inline
  · simp [Rule.text, Rule.inline, Rule.nearby, text_inline, sectionStart, sectionEnd]

theorem value_inline : (value p).inline = true := by
  have lineComment := plain.no_lineFeed p.lineComment_mem
  have blockStart := plain.no_lineFeed p.blockCommentStart_mem
  have quote : (CharSet.ofBytes [0x22]).contains 0x0A = false := rfl
  have quotable : (CharSet.printable \ .ofBytes [0x22]).contains 0x0A = false := by decide +kernel
  have bare : (bareValue p).inline = true := by
    simp [bareValue, Rule.text, Rule.inline, Rule.nearby, text_inline, blockStart, lineComment]
  simp only [value]
  split
  · simp [quoteMark, Rule.byte, Rule.sendNow, Rule.inline, text_inline, quote, quotable, bare]
  · exact bare

theorem lineComment_nearby : (Grammar.lineComment p).nearby = true := by
  have lineComment := plain.no_lineFeed p.lineComment_mem
  simp [Grammar.lineComment, Rule.text, Rule.inline, Rule.nearby, text_inline, endOfLine_nearby,
    lineComment]

theorem blockComment_nearby : (blockComment p).nearby = true := by
  have blockStart := plain.no_lineFeed p.blockCommentStart_mem
  have blockEnd := plain.no_lineFeed p.blockCommentEnd_mem
  simp [blockComment, Rule.text, Rule.push, Rule.prepare, Rule.pop, Rule.cancel, Rule.inline,
    Rule.nearby, text_inline, blanks_inline, blockStart, blockEnd]

theorem sectionHeader_nearby : (sectionHeader p).nearby = true := by
  have sectionStart := plain.no_lineFeed p.sectionStart_mem
  have sectionEnd := plain.no_lineFeed p.sectionEnd_mem
  simp [sectionHeader, skippedSection, Rule.text, Rule.push, Rule.prepare, Rule.pop, Rule.cancel,
    Rule.replaceScope, Rule.inline, Rule.nearby, text_inline, blanks_inline, endOfLine_nearby,
    plain.sectionName_inline, sectionStart, sectionEnd]

theorem keyValue_nearby : (keyValue p).nearby = true := by
  simp [keyValue, Rule.inOrder, Rule.inline, Rule.nearby, plain.key_inline,
    plain.assignment_inline, plain.value_inline, plain.lineComment_nearby,
    plain.blockComment_nearby]

/-- No content of a line looks past the line. -/
theorem content_nearby : (content p).nearby = true := by
  simp [content, Rule.firstOf, badLine, Rule.sendNow, Rule.nearby, Rule.inline, text_inline,
    endOfLine_nearby, plain.lineComment_nearby, plain.blockComment_nearby,
    plain.sectionHeader_nearby, plain.keyValue_nearby]

end Policy.Plain

namespace Grammar

theorem gap_nearby : gap.nearby = true := rfl

theorem gap_eats : gap.eats = true := rfl

/-- From `pos` on stand the contents of lines, each behind blanks and line breaks, and more of these
up to the end. The forest is that of the contents. -/
inductive FileLines (p : Policy) (source : Source) (stop : Nat) :
    Nat → List (Tree Action) → Prop where
  | ends {pos} :
      Recognizes (inputUpTo source stop) spacing pos (some (inputUpTo source stop).length) →
      FileLines p source stop pos []
  | more {pos mid next f g} : Recognizes (inputUpTo source stop) spacing pos (some mid) →
      Derives source stop (content p) mid next f → FileLines p source stop next g →
      FileLines p source stop pos (f ++ g)

end Grammar

open Grammar

namespace Policy.Filled

variable {p : Policy} (filled : p.Filled) {source : Source} {stop pos next : Nat}
  {f : List (Tree Action)}
include filled

theorem line_eats : (line p).eats = true := by
  simp [line_eq, Rule.eats, filled.content_eats]

theorem fileLines_of_many
    (lines : Derives source stop (.many (line p)) pos (inputUpTo source stop).length f)
    (inside : pos ≤ (inputUpTo source stop).length) {first : Nat}
    (before : Recognizes (inputUpTo source stop) spacing first (some pos)) :
    FileLines p source stop first f := by
  generalize repeated : Rule.many (line p) = rule at lines
  generalize atEnd : (inputUpTo source stop).length = last at lines
  induction lines generalizing first with
  | manyFail =>
    cases repeated
    subst atEnd
    exact .ends before
  | manyEmpty part =>
    cases repeated
    exact absurd (part.recognizes.eats inside filled.line_eats) (Nat.lt_irrefl _)
  | manyNext part _ _ _ ih =>
    cases repeated
    have onward := part.recognizes.advances inside
    obtain ⟨_, _, _, here, behind, rfl⟩ := Derives.seq_iff.mp part
    rw [behind.unmarked rfl, List.append_nil]
    exact .more before here (ih onward.2 behind.recognizes rfl atEnd)
  | leaf found =>
    subst repeated
    simp [Rule.leaf?] at found
  | _ => cases repeated

/-- No line begins at the end of the text. -/
theorem line_fails : Recognizes (inputUpTo source stop) (line p) (inputUpTo source stop).length
    none := by
  obtain ⟨_ | next, reached⟩ :=
    Recognizes.total (inputUpTo source stop) (line p) _ (Nat.le_refl _)
  · exact reached
  · have further := reached.eats (Nat.le_refl _) filled.line_eats
    exact absurd (reached.advances (Nat.le_refl _)).2 (Nat.not_le_of_lt further)

theorem many_of_fileLines {first : Nat} (lines : FileLines p source stop first f)
    (inside : first ≤ (inputUpTo source stop).length) :
    ∃ pos, Recognizes (inputUpTo source stop) spacing first (some pos) ∧
      Derives source stop (.many (line p)) pos (inputUpTo source stop).length f := by
  induction lines with
  | ends before => exact ⟨_, before, .manyFail filled.line_fails⟩
  | more before here _ ih =>
    have onward := before.advances inside
    have moved := here.recognizes.eats onward.2 filled.content_eats
    have further := here.recognizes.advances onward.2
    obtain ⟨pos, behind, rest⟩ := ih further.2
    obtain ⟨g, spaces⟩ := behind.derives further.2
    obtain rfl := spaces.unmarked rfl
    refine ⟨_, before, .manyNext ?_ ?_ rest⟩
    · have whole := Derives.seq here spaces
      rwa [List.append_nil] at whole
    · have onward := (behind.advances further.2).1
      omega

/-- The root rule matches the whole of a text, as the lines of a file, or not at all. -/
theorem root_iff : Derives source stop (root p) 0 next f ↔
    next = (inputUpTo source stop).length ∧ FileLines p source stop 0 f := by
  constructor
  · intro whole
    obtain rfl := whole.at_end
    refine ⟨rfl, ?_⟩
    obtain ⟨mid, _, _, body, last, rfl⟩ := Derives.seq_iff.mp whole
    obtain rfl := last.unmarked rfl
    obtain rfl : mid = (inputUpTo source stop).length := by
      cases last with
      | leaf found => simp_all [Rule.leaf?]
    obtain ⟨_, _, _, spaces, lines, rfl⟩ := Derives.seq_iff.mp body
    obtain rfl := spaces.unmarked rfl
    have onward := spaces.recognizes.advances (Nat.zero_le _)
    rw [List.append_nil]
    exact filled.fileLines_of_many lines onward.2 spaces.recognizes
  · rintro ⟨rfl, lines⟩
    obtain ⟨pos, before, rest⟩ := filled.many_of_fileLines lines (Nat.zero_le _)
    obtain ⟨g, spaces⟩ := before.derives (Nat.zero_le _)
    obtain rfl := spaces.unmarked rfl
    have last : Derives source stop (.endOfInput : ConfigRule) (inputUpTo source stop).length
        (inputUpTo source stop).length [] := .leaf (by simp [Rule.leaf?])
    have whole := Derives.seq (.seq spaces rest) last
    rwa [List.append_nil] at whole

end Policy.Filled

section Joining

variable {p : Policy} {source source' : Source} {stop stop' pos : Nat} {f g : List (Tree Action)}

theorem Grammar.FileLines.behind {before : Bytes} (lines : FileLines p source stop pos f)
    (longer : inputUpTo source' stop' = before ++ inputUpTo source stop)
    (inside : pos ≤ (inputUpTo source stop).length) :
    FileLines p source' stop' (before.length + pos)
      (f.map (Tree.displace source' before.length)) := by
  induction lines with
  | ends spaces =>
    refine .ends ?_
    rw [longer, List.length_append]
    exact spaces.behind before
  | more spaces here _ ih =>
    have onward := spaces.advances inside
    have further := here.recognizes.advances onward.2
    rw [List.map_append]
    exact .more (longer ▸ spaces.behind before) (here.behind longer onward.2) (ih further.2)

/-- Spacing in front of lines belongs to them. -/
theorem Grammar.FileLines.spaced {mid : Nat} (lines : FileLines p source stop mid f)
    (spaces : ∀ next, Recognizes (inputUpTo source stop) spacing mid (some next) →
      Recognizes (inputUpTo source stop) spacing pos (some next)) :
    FileLines p source stop pos f := by
  cases lines with
  | ends before => exact .ends (spaces _ before)
  | more before here rest => exact .more (spaces _ before) here rest

variable {x : Bytes}

/-- The lines of a text that ends with a line feed, and behind it the lines of another. -/
theorem Policy.Plain.fileLines_append (plain : p.Plain) {whole : Source} {last : Nat}
    (lines : FileLines p source stop pos f) (rest : FileLines p source' stop' 0 g)
    (text : inputUpTo source stop = x ++ [0x0A])
    (joined : inputUpTo whole last = inputUpTo source stop ++ inputUpTo source' stop')
    (inside : pos ≤ (inputUpTo source stop).length) :
    FileLines p whole last pos (f.map (Tree.displace whole 0) ++
      g.map (Tree.displace whole (inputUpTo source stop).length)) := by
  have there : inputUpTo whole last = x ++ 0x0A :: inputUpTo source' stop' := by
    simp [joined, text]
  have length : (inputUpTo source stop).length = x.length + 1 := by simp [text]
  induction lines with
  | ends spaces =>
    have behind := rest.behind joined (Nat.zero_le _)
    refine behind.spaced fun next further => ?_
    rw [there] at further ⊢
    rw [Nat.add_zero, length] at further
    rw [text, List.length_append] at spaces
    exact spaces.near_many gap_nearby (by omega) (Nat.le_refl _) further
  | @more _ mid _ _ _ spaces here _ ih =>
    have onward := spaces.advances inside
    have eaten := here.recognizes.eats onward.2 plain.filled.content_eats
    have further := here.recognizes.advances onward.2
    have within : mid ≤ x.length := by omega
    rw [List.map_append, List.append_assoc]
    refine .more ?_ (here.near text there within plain.content_nearby) (ih further.2)
    rw [text] at spaces
    rw [there]
    obtain ⟨m, again, last⟩ := spaces.many_stops
    exact spaces.near_many gap_nearby (by omega) (Nat.le_succ_of_le within)
      (.manyEnd (again.near within gap_nearby) last)

end Joining

end Config
end Backtrack
