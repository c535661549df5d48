import Backtrack.Proofs.FileLines
import Backtrack.Proofs.Legible
import Backtrack.Proofs.Twins

/-! Readable config files. Whatever the grammar matches is readable, and on readable text there is
always a line that begins with the next printable byte, so the root rule matches the whole of a
range just where the range is readable. -/
namespace Backtrack

variable {σ : Type}

namespace Config

/-- The delimiters are printable ASCII. -/
def Policy.Printable (p : Policy) : Prop :=
  ∀ d ∈ p.delimiters, ∀ b ∈ Text.utf8 d.2, 0x20 ≤ b ∧ b ≤ 0x7E

theorem utf8_ne_nil {text : String} (filled : text.isEmpty = false) : Text.utf8 text ≠ [] := by
  intro empty
  rw [Text.utf8, List.flatMap_eq_nil_iff] at empty
  have none : text.toList = [] := by
    rw [List.eq_nil_iff_forall_not_mem]
    intro c member
    have size := String.length_utf8EncodeChar c
    rw [empty c member] at size
    exact absurd size.symm (Nat.ne_of_gt c.utf8Size_pos)
  simp_all

/-- A policy that is in order has no empty delimiter. -/
theorem Policy.filled_of_validate {p : Policy} (inOrder : p.validate = .ok ()) : p.Filled := by
  intro d member
  unfold validate error? at inOrder
  split at inOrder
  next => cases inOrder
  next none =>
    split at none
    next => cases none
    next clear =>
      have filled := List.find?_eq_none.mp clear d member
      exact utf8_ne_nil (by simpa using filled)

theorem Policy.Printable.plain {p : Policy} (printable : p.Printable)
    (inOrder : p.validate = .ok ()) : p.Plain where
  filled := filled_of_validate inOrder
  printable d member b inside :=
    (CharSet.contains_printable b).mpr (printable d member b inside)

namespace Grammar

theorem legible_of_within {s : CharSet} (within : s.within .printable = true) :
    (Rule.set s : ConfigRule).Legible :=
  .set fun b member => .inl
    ((CharSet.contains_printable b).mp (CharSet.contains_of_within within member))

theorem text_legible : text.Legible :=
  .set fun b member => .inl ((CharSet.contains_printable b).mp member)

theorem blank_legible : (Rule.set .blank : ConfigRule).Legible := by
  refine .set fun b blank => ?_
  rcases (CharSet.contains_blank b).mp blank with rfl | rfl
  · exact .inl (by decide)
  · exact .inr (.inl rfl)

theorem blanks_legible : blanks.Legible := blank_legible.many

/-- A carriage return is matched only together with the line feed behind it. -/
theorem endOfLine_legible : endOfLine.Legible := by
  intro input pos next inside matched
  obtain ⟨mid, first, second⟩ := Recognizes.seq_some_iff.mp matched
  obtain ⟨b, here, fed, rfl⟩ := second.byte_of_set
  obtain rfl := (CharSet.contains_byte _ _).mp fed
  obtain ⟨_ | mid, part, reached⟩ := Recognizes.optional_iff.mp first <;> cases reached
  · have one : stretch input pos (pos + 1) = [0x0A] := stretch_succ here
    exact one ▸ .of_forall (by simp)
  · obtain ⟨c, there, returns, rfl⟩ := part.byte_of_set
    obtain rfl := (CharSet.contains_byte _ _).mp returns
    have last : stretch input (pos + 1) (pos + 2) = [0x0A] := stretch_succ here
    have both : [0x0D, 0x0A] = stretch input pos (pos + 2) := by
      rw [← stretch_append (Nat.le_succ pos) (Nat.le_succ (pos + 1)), stretch_succ there, last]
      rfl
    exact both ▸ .line_break

theorem alnumName_legible : alnumName.Legible :=
  (legible_of_within (by decide +kernel)).seq (legible_of_within (by decide +kernel)).many

theorem key_legible (p : Policy) : (key p).Legible := by
  unfold key
  split
  · exact alnumName_legible
  · exact text_legible.difference.many1

theorem value_legible (p : Policy) : (value p).Legible := by
  have bare : (bareValue p).Legible := text_legible.difference.many.action .value
  have mark : quoteMark.Legible := legible_of_within (by decide +kernel)
  have quotable : (Rule.set (.printable \ .ofBytes [0x22]) : ConfigRule).Legible :=
    legible_of_within (by decide +kernel)
  have quoted := (quotable.many.action .quotedValue).seq mark
  have unclosed := (text_legible.many.effect
    (.sendNow (.major "Could not find ending quote for value."))).action .unclosedQuote
  simp only [value]
  split
  · exact (mark.seq (quoted.choice unclosed)).choice bare
  · exact bare

theorem sectionName_legible (p : Policy) : (sectionName p).Legible := by
  unfold sectionName
  split
  · exact alnumName_legible
  · exact text_legible.difference.many1

end Grammar

namespace Policy.Printable

variable {p : Policy} (printable : p.Printable)
include printable

theorem literal {d : String × String} (member : d ∈ p.delimiters) :
    (Rule.text d.2 : ConfigRule).Legible :=
  .literal (printable d member)

open Grammar

theorem lineComment_legible : (Grammar.lineComment p).Legible :=
  ((printable.literal p.lineComment_mem).seq text_legible.many).seq
    (endOfLine_legible.choice .endOfInput)

theorem blockComment_legible : (Grammar.blockComment p).Legible := by
  have content := (text_legible.difference (b := .text p.blockCommentEnd)).many.effect
    (.prepare (.major "Found comment, but no end of comment."))
  have skip := (text_legible.many.effect .pop).action .invalid
  have start := (printable.literal p.blockCommentStart_mem).effect
    (.push (.major "Found start of comment, but no comment content."))
  have whole := (blanks_legible.seq content).seq
    ((printable.literal p.blockCommentEnd_mem).effect .cancel)
  exact start.seq (whole.choice skip)

theorem assignment_legible : (Grammar.assignment p).Legible :=
  (blanks_legible.seq (printable.literal p.assign_mem)).seq blanks_legible

theorem keyValue_legible : (Grammar.keyValue p).Legible := by
  have pair := ((key_legible p).action .key).seq
    (printable.assignment_legible.seq (value_legible p)).optional
  have comment := (printable.lineComment_legible.choice printable.blockComment_legible).optional
  exact (pair.seq comment).action .keyValue

theorem sectionHeader_legible : (Grammar.sectionHeader p).Legible := by
  have start := ((printable.literal p.sectionStart_mem).seq blanks_legible).effect
    (.push (.major "Found start of section, but no section name."))
  have name := (((sectionName_legible p).action .sectionName).effect
    (.replaceScope sectionScope)).effect
    (.prepare (.major "Found section name, but no end of section."))
  have ending := (blanks_legible.seq (printable.literal p.sectionEnd_mem)).effect .cancel
  have skipped : (Grammar.skippedSection p).Legible :=
    ((text_legible.difference.many.difference.seq endOfLine_legible.optional).action
      .invalid).effect .pop
  exact start.seq ((name.seq ending).choice skipped)

theorem content_legible : (Grammar.content p).Legible := by
  have bad : badLine.Legible := ((text_legible.many1.seq endOfLine_legible.optional).effect
    (.sendNow (.major "Could not parse contents."))).action .invalid
  exact (((printable.blockComment_legible.choice printable.lineComment_legible).choice
    printable.sectionHeader_legible).choice printable.keyValue_legible).choice bad

theorem root_legible : (root p).Legible := by
  have gaps : spacing.Legible :=
    (blank_legible.choice endOfLine_legible).many
  exact (gaps.seq (printable.content_legible.seq gaps).many).seq .endOfInput

end Policy.Printable

namespace Grammar

variable {input : Bytes} {pos : Nat} {b : UInt8}

/-- A line begins with any printable byte. -/
theorem content_matches (p : Policy) (here : input[pos]? = some b)
    (printable : 0x20 ≤ b ∧ b ≤ 0x7E) : ∃ next, Recognizes input (content p) pos (some next) := by
  have inside : pos ≤ input.length := Nat.le_of_lt (List.getElem?_eq_some_iff.mp here).1
  obtain ⟨_ | next, reached⟩ := Recognizes.total input (content p) pos inside
  · have bad := Recognizes.effect_iff.mp
      (Recognizes.action_iff.mp (Recognizes.choice_none_iff.mp reached).2)
    obtain ⟨blank, -⟩ | ⟨_, -, rest⟩ := Recognizes.seq_iff.mp bad
    · exact absurd ((CharSet.contains_printable b).mpr printable)
        (blank.none_of_many1.no_byte_of_set here)
    · exact rest.not_optional_none.elim
  · exact ⟨next, reached⟩

theorem endOfLine_fails (failed : Recognizes input endOfLine pos none) :
    input[pos]? ≠ some 0x0A ∧ (input[pos]? = some 0x0D → input[pos + 1]? ≠ some 0x0A) := by
  have fed : (CharSet.ofBytes [0x0A]).contains 0x0A = true := (CharSet.contains_byte ..).mpr rfl
  have returns : (CharSet.ofBytes [0x0D]).contains 0x0D = true := (CharSet.contains_byte ..).mpr rfl
  obtain ⟨first, -⟩ | ⟨mid, first, second⟩ := Recognizes.seq_iff.mp failed
  · exact first.not_optional_none.elim
  obtain ⟨_ | mid, part, reached⟩ := Recognizes.optional_iff.mp first <;> cases reached
  · exact ⟨fun here => second.no_byte_of_set here fed,
      fun here => absurd returns (part.no_byte_of_set here)⟩
  · obtain ⟨b, here, member, rfl⟩ := part.byte_of_set
    obtain rfl := (CharSet.contains_byte _ _).mp member
    rw [here]
    exact ⟨by decide, fun _ there => second.no_byte_of_set there fed⟩

/-- Where neither a blank nor a line break stands in a readable text, a printable byte does. -/
theorem solid_of_gap_fails (failed : Recognizes input gap pos none) (here : input[pos]? = some b)
    (readable : Readable (input.drop pos)) : 0x20 ≤ b ∧ b ≤ 0x7E := by
  have first : (input.drop pos)[0]? = some b := by simpa using here
  have second : (input.drop pos)[0 + 1]? = input[pos + 1]? := by simp
  obtain ⟨noBlank, noBreak⟩ := Recognizes.choice_none_iff.mp failed
  have solid := noBlank.no_byte_of_set here
  rw [CharSet.contains_blank] at solid
  obtain ⟨unfed, unbroken⟩ := endOfLine_fails noBreak
  obtain printable | rfl | rfl | ⟨rfl, fed⟩ := readable 0 b first
  · exact printable
  · exact absurd (.inr rfl) solid
  · exact absurd here unfed
  · exact absurd (second.symm.trans fed) (unbroken here)

end Grammar

section Reading

open Grammar

variable {p : Policy} {source : Source} {start stop pos : Nat}

/-- Readable text is the lines of a file. -/
theorem Policy.Plain.fileLines (plain : p.Plain)
    (readable : Readable ((inputUpTo source stop).drop pos))
    (inside : pos ≤ (inputUpTo source stop).length) : ∃ f, FileLines p source stop pos f := by
  induction left : (inputUpTo source stop).length - pos using Nat.strongRecOn generalizing pos with
  | ind left ih =>
    obtain ⟨_ | mid, spaces⟩ := Recognizes.total (inputUpTo source stop) spacing pos inside
    · exact spaces.not_many_none.elim
    have onward := spaces.advances inside
    by_cases atEnd : mid = (inputUpTo source stop).length
    · exact ⟨[], .ends (atEnd ▸ spaces)⟩
    have before : mid < (inputUpTo source stop).length := by omega
    have failed : Recognizes (inputUpTo source stop) gap mid none := by
      obtain ⟨m, last, rfl | rfl⟩ := spaces.many_stops
      · exact last
      · exact absurd (last.eats onward.2 gap_eats) (Nat.lt_irrefl _)
    have readable' : Readable ((inputUpTo source stop).drop mid) := by
      have behind := readable.drop (mid - pos)
      rwa [List.drop_drop, Nat.add_sub_cancel' onward.1] at behind
    have here := List.getElem?_eq_getElem before
    obtain ⟨next, matched⟩ := content_matches p here (solid_of_gap_fails failed here readable')
    have eaten := matched.eats onward.2 plain.filled.content_eats
    have further := matched.advances onward.2
    obtain ⟨f, content⟩ := matched.derives onward.2
    have rest : Readable ((inputUpTo source stop).drop next) := by
      have behind := readable'.drop (next - mid)
      rwa [List.drop_drop, Nat.add_sub_cancel' further.1] at behind
    obtain ⟨g, lines⟩ := ih _ (by omega) rest further.2 rfl
    exact ⟨f ++ g, .more spaces content lines⟩

/-- The root rule matches a range just where the range is readable. -/
theorem Policy.Printable.derives_iff (printable : p.Printable) (inOrder : p.validate = .ok ())
    (ordered : start ≤ stop) (inside : stop ≤ source.size) :
    (∃ next f, Derives source stop (root p) start next f) ↔
      Readable (source.extract start stop).toList := by
  have plain := printable.plain inOrder
  have split := inputUpTo_split source ordered
  have length := length_inputUpTo (Nat.le_trans ordered inside)
  constructor
  · rintro ⟨next, f, derives⟩
    have read := printable.root_legible _ _ _ (by rw [split]; simp [length]) derives.recognizes
    rw [derives.at_end] at read
    rwa [stretch, List.take_length, split, List.drop_left' length] at read
  · intro readable
    let slice := source.extract start stop
    have whole : inputUpTo slice slice.size = slice.toList := by simp [inputUpTo]
    have readable' : Readable ((inputUpTo slice slice.size).drop 0) := by rwa [whole]
    obtain ⟨f, lines⟩ := plain.fileLines readable' (Nat.zero_le _)
    have derives := plain.filled.root_iff.mpr ⟨rfl, lines⟩
    have behind := derives.behind (split.trans (by rw [whole])) (Nat.zero_le _)
    rw [length, Nat.add_zero] at behind
    exact ⟨_, _, behind⟩

end Reading

end Config

/-- The parse of a range of a config file ends in a verdict just where the range is readable, unless
its budget is used up. It never stops short of the end of the range, and the client is given the
calls for the journal of the whole range, with the closing one, or none. -/
theorem parse_readable (p : Config.Parser) (source : Source) (start stop : Nat)
    (client : Config.Client σ) (world : σ) (idle : p.driver.busy = false)
    (inOrder : p.policy.validate = .ok ()) (printable : p.policy.Printable)
    (ordered : start < stop) (inside : stop ≤ source.size) :
    let parsed := p.parseRange source start stop client world
    let run := p.parseRange source start stop client.logged { world }
    let readable := Readable (source.extract start stop).toList
    (∀ outcome, parsed.outcome = .ok outcome →
      outcome ≠ .someValid ∧
      (outcome ≠ .aborted →
        (readable ↔ outcome = .allValid ∨ outcome = .notValid) ∧
        (¬ readable ↔ outcome = .notParsed))) ∧
    (client.Calm → ∃ outcome, parsed.outcome = .ok outcome ∧
      (outcome = .allValid ∨ outcome = .notValid → ∃ forest,
        Derives source stop (Config.Grammar.root p.policy) start stop forest ∧
        outcome = (if forest.all Config.isValid then .allValid else .notValid) ∧
        UpToRefusal (Config.allCalls p.policy forest) run.world.calls) ∧
      (outcome = .notParsed ∨ outcome = .aborted → run.world.calls = [])) := by
  intro parsed run readable
  have accepted : Driver.refuse? source.size start stop = none := by
    unfold Driver.refuse?
    grind
  have balanced : (Config.Grammar.root p.policy).Balanced := (Shipped.config p.policy).balanced
  have matches_iff := printable.derives_iff inOrder (Nat.le_of_lt ordered) inside
  have clipped : min stop source.size = stop := Nat.min_eq_left inside
  have reaches {next : Nat} {forest : List (Tree Config.Action)}
      (derives : Derives source stop (Config.Grammar.root p.policy) start next forest) :
      next = stop := derives.at_end.trans (length_inputUpTo inside)
  constructor
  · intro outcome returned
    obtain ⟨next, forest, derives, rfl⟩ | ⟨rfl, none⟩ | rfl :=
      Driver.parse_ends balanced idle accepted (client.judges _) returned
    · rw [clipped] at derives ⊢
      obtain rfl := reaches derives
      have read : readable := matches_iff.mp ⟨_, _, derives⟩
      rw [beq_self_eq_true, Outcome.classify_atEnd]
      split <;> simp [read]
    · rw [clipped] at none
      have unread : ¬ readable := fun read => by
        obtain ⟨next, forest, derives⟩ := matches_iff.mpr read
        exact none next forest derives
      simp [unread]
    · simp
  · intro calm
    obtain ⟨course, fits, ends⟩ :=
      Driver.parse_course balanced idle accepted (·.all Config.isValid)
    obtain ⟨heard, part, last, logged, -, calls, -⟩ :=
      p.parse_log source start stop world calm fits
    have run_eq : run = _ := logged
    have returned : parsed.outcome = .ok course.outcome := by
      rw [show parsed = _ from p.parse_logged source start stop client world, logged]
    rw [run_eq]
    refine ⟨course.outcome, returned, ?_⟩
    obtain ⟨next, forest, derives, replayed, judged⟩ | ⟨none, ended⟩ := ends
    · rw [clipped] at derives judged
      obtain rfl := reaches derives
      rw [beq_self_eq_true, Outcome.classify_atEnd] at judged
      rw [replayed] at calls
      refine ⟨fun _ => ⟨forest, derives, judged, calls⟩, fun ended => ?_⟩
      rw [judged] at ended
      split at ended <;> simp at ended
    · rw [none] at calls
      refine ⟨fun good => ?_, fun _ => ?_⟩
      · rcases ended with ended | ended <;> simp [ended] at good
      · exact calls.eq_nil

/-- The range ends between a carriage return and the line feed behind it. -/
theorem parse_readable_halved_break :
    let p := Config.Parser.build {}
    let source : Source := #[0x6B, 0x0D, 0x0A]
    let parsed := p.parseRange source 0 2 .deaf ()
    p.driver.busy = false ∧ p.policy.validate = .ok () ∧ p.policy.Printable ∧
    0 < 2 ∧ 2 ≤ source.size ∧ Config.Client.deaf.Calm ∧
    ¬ Readable (source.extract 0 2).toList ∧ parsed.outcome = .ok .notParsed := by
  intro p source parsed
  have inOrder : p.policy.validate = .ok () := by decide +kernel
  have printable : p.policy.Printable := by
    unfold Config.Policy.Printable
    decide +kernel
  have finished : parsed.outcome.toOption ≠ some .aborted := by decide +kernel
  have unread : ¬ Readable (source.extract 0 2).toList := by
    intro readable
    have last := readable 1 0x0D (by decide)
    simp at last
  obtain ⟨ends, answers⟩ :=
    parse_readable p source 0 2 .deaf () rfl inOrder printable (by decide) (by decide)
  obtain ⟨outcome, returned, -⟩ := answers Config.Parser.deaf_calm
  have completed : outcome ≠ .aborted := by
    rintro rfl
    exact finished (congrArg Except.toOption returned)
  have notParsed := ((ends outcome returned).2 completed).2.mp unread
  exact ⟨rfl, inOrder, printable, by decide, by decide, Config.Parser.deaf_calm, unread,
    notParsed ▸ returned⟩

end Backtrack
