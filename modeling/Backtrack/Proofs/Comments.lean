import Backtrack.Proofs.CallStream
import Backtrack.Proofs.Courses
import Backtrack.Proofs.Exclusion
import Backtrack.Proofs.PrintedLines
import Backtrack.Proofs.Readable

/-! Comments and what is called content. A bare value ends where a comment begins. A key does not:
the rule of keys knows nothing of comments, so a key is kept out of a comment only by its name bytes,
where names are restricted, and at its first byte, where a comment would have been read instead. -/
namespace Backtrack

variable {σ : Type}

namespace Config

open Grammar

/-- No comment begins anywhere in the span. -/
def Uncommented (p : Policy) (span : Span) : Prop :=
  ¬ Text.utf8 p.blockCommentStart <:+: span.bytes ∧ ¬ Text.utf8 p.lineComment <:+: span.bytes

/-- From a place on, printable bytes and then one that is neither printable nor in a line break. -/
def BrokenOff (source : Source) (pos : Nat) : Prop :=
  ∃ i b, pos ≤ i ∧ source[i]? = some b ∧ ¬ IsPrintable b ∧ b ≠ 0x0A ∧
    (b = 0x0D → source[i + 1]? ≠ some 0x0A) ∧
    ∀ j, pos ≤ j → j < i → ∃ c, source[j]? = some c ∧ IsPrintable c

/-- The key holds no comment, as far as the rule of keys sees to it: it does not begin as a block
comment does, nor as a line comment that can be read, and where names are restricted only a mark
made of name bytes can be in it. -/
structure KeyOutside (p : Policy) (source : Source) (key : Span) : Prop where
  block : ¬ Text.utf8 p.blockCommentStart <+: key.bytes
  line : Text.utf8 p.lineComment <+: key.bytes →
    BrokenOff source (key.start + (Text.utf8 p.lineComment).length)
  named : p.alnumNames = true → ∀ mark : Bytes, (∃ b ∈ mark, ¬ NamePart b) → ¬ mark <:+: key.bytes

section Trimming

variable {p : Policy} {span : Span}

theorem trimmed_start (unindented : span.Unindented) : (trimmed p span).start = span.start := by
  unfold trimmed
  split
  · exact unindented.trimBlanks_start
  · rfl

end Trimming

section Pieces

variable {p : Policy} {source : Source} {pos next : Nat} {f : List (Tree Action)}

theorem text_byte {input : Bytes} {i k : Nat} (once : Recognizes input text i (some k)) :
    k = i + 1 ∧ ∃ c, input[i]? = some c ∧ IsPrintable c := by
  obtain ⟨c, here, member, rfl⟩ := once.byte_of_set
  exact ⟨rfl, c, here, (CharSet.contains_printable c).mp member⟩

/-- Where no block comment is read, none begins. -/
theorem blockComment_fails {input : Bytes} (failed : Recognizes input (blockComment p) pos none) :
    ¬ Text.utf8 p.blockCommentStart <+: input.drop pos := by
  obtain ⟨first, -⟩ | ⟨mid, -, rest⟩ := Recognizes.seq_iff.mp failed
  · exact Recognizes.literal_none_iff.mp (Recognizes.effect_iff.mp first)
  · have skip := (Recognizes.choice_none_iff.mp rest).2
    exact absurd (Recognizes.effect_iff.mp (Recognizes.action_iff.mp skip))
      Recognizes.not_many_none

/-- A line comment that is not read is broken off. -/
theorem lineComment_fails (failed : Recognizes source.toList (lineComment p) pos none)
    (inside : pos ≤ source.toList.length)
    (here : Text.utf8 p.lineComment <+: source.toList.drop pos) :
    BrokenOff source (pos + (Text.utf8 p.lineComment).length) := by
  obtain ⟨first, -⟩ | ⟨i, first, last⟩ := Recognizes.seq_iff.mp failed
  · obtain ⟨mark, -⟩ | ⟨mid, -, none⟩ := Recognizes.seq_iff.mp first
    · exact absurd here (Recognizes.literal_none_iff.mp mark)
    · exact none.not_many_none.elim
  obtain ⟨mid, mark, body⟩ := Recognizes.seq_some_iff.mp first
  have within := (mark.advances inside).2
  have behind := Recognizes.literal_iff.mp mark
  rw [if_pos here, Option.some.injEq] at behind
  subst behind
  obtain ⟨onward, held⟩ := body.many_each fun _ _ => text_byte
  obtain ⟨noBreak, noEnd⟩ := Recognizes.choice_none_iff.mp last
  have before : i < source.toList.length := by
    refine Nat.lt_of_le_of_ne (body.advances within).2 fun atEnd => ?_
    have same := (Recognizes.leaf_iff rfl).mp noEnd
    rw [if_pos atEnd] at same
    cases same
  have next := List.getElem?_eq_getElem before
  obtain ⟨unfed, unbroken⟩ := endOfLine_fails noBreak
  obtain ⟨m, once, ends⟩ := body.many_stops
  have unprinted : ¬ IsPrintable source.toList[i] := fun printable => by
    have member := (CharSet.contains_printable _).mpr printable
    have taken := Recognizes.set_iff.mp once
    rw [next, Option.any_some, if_pos member] at taken
    rcases ends with rfl | rfl <;> simp at taken
  refine ⟨i, source.toList[i], onward, by simp, unprinted, ?_, ?_, ?_⟩
  · rintro fed
    exact unfed (next.trans (congrArg some fed))
  · rintro returns
    simpa using unbroken (next.trans (congrArg some returns))
  · intro j first last
    simpa using held j first last

/-- No comment begins in a bare value. -/
theorem bareValue_uncommented (filled : p.Filled)
    (derives : Derives source source.size (bareValue p) pos next f) :
    ∃ span : Span, f = [.node .value span []] ∧ Uncommented p (trimmed p span) := by
  obtain ⟨span, g, run, inSource, start, last, rfl⟩ := Derives.action_iff.mp derives
  obtain rfl := run.unmarked rfl
  refine ⟨span, rfl, ?_⟩
  have block := filled _ p.blockCommentStart_mem
  have line := filled _ p.lineComment_mem
  have eats : (Rule.choice (.text p.blockCommentStart) (.text p.lineComment) : ConfigRule).eats =
      true := by
    simp [Rule.eats, Rule.text, block, line]
  have recognized := run.recognizes
  rw [inputUpTo_size] at recognized
  obtain ⟨-, clear⟩ := recognized.many_each fun _ _ once => once.clear eats
  have source_eq := (trimmed_source p span).trans inSource
  obtain ⟨first, second⟩ := trimmed_ends p span
  have apart {mark : Bytes} (solid : mark ≠ [])
      (unmarked : ∀ i, pos ≤ i → i < next → ¬ mark <+: source.toList.drop i) :
      ¬ mark <:+: (trimmed p span).bytes := fun here => by
    obtain ⟨i, after, before, stands⟩ := Span.stands_of_infix solid here
    rw [source_eq] at stands
    exact unmarked i (by omega) (by omega) stands
  exact ⟨apart block fun i after before => (Recognizes.no_literal (clear i after before).2).1,
    apart line fun i after before => (Recognizes.no_literal (clear i after before).2).2⟩

/-- A value that is not quoted is a bare value. -/
theorem bareValue_of_value {stop : Nat} (derives : Derives source stop (value p) pos next f)
    {part : Tree Action} (among : part ∈ f) (named : part.action = .value) :
    Derives source stop (bareValue p) pos next [part] := by
  have bare (derives : Derives source stop (bareValue p) pos next f) :
      Derives source stop (bareValue p) pos next [part] := by
    obtain ⟨span, g, -, -, -, -, rfl⟩ := Derives.action_iff.mp derives
    obtain rfl := List.mem_singleton.mp among
    exact derives
  unfold value at derives
  split at derives
  · obtain quoted | ⟨-, unquoted⟩ := Derives.choice_iff.mp derives
    · have other := quoted.action_mem part among
      simp [named, Rule.marks, quoteMark, Rule.byte, Rule.sendNow] at other
    · exact bare unquoted
  · exact bare derives

/-- Where names are restricted, a key is made of name bytes. -/
theorem key_named (restricted : p.alnumNames = true)
    (derives : Derives source source.size (key p) pos next f) :
    ∀ i, pos ≤ i → i < next → ∃ c, source[i]? = some c ∧ NamePart c := by
  have recognized := derives.recognizes
  rw [inputUpTo_size, key, if_pos restricted] at recognized
  obtain ⟨mid, first, rest⟩ := Recognizes.seq_some_iff.mp recognized
  obtain ⟨b, here, member, rfl⟩ := first.byte_of_set
  have named (i k : Nat)
      (once : Recognizes source.toList (.set (.alnum ∪ .ofBytes [0x5F]) : ConfigRule) i (some k)) :
      k = i + 1 ∧ ∃ c, source.toList[i]? = some c ∧ NamePart c := by
    obtain ⟨c, here, member, rfl⟩ := once.byte_of_set
    exact ⟨rfl, c, here, (contains_namePart c).mp member⟩
  obtain ⟨-, behind⟩ := rest.many_each named
  intro i after before
  rcases Nat.eq_or_lt_of_le after with rfl | later
  · exact ⟨b, by simpa using here, .inl ((contains_nameStart b).mp member)⟩
  · simpa using behind i later before

end Pieces

section Pairs

variable {p : Policy} {source : Source} {pos next : Nat} {f : List (Tree Action)}
  {tree : Tree Action}

/-- A pair is read only where no comment can be. -/
theorem pair_of_content (derives : Derives source source.size (content p) pos next f)
    (member : tree ∈ f) (named : tree.action = .keyValue) :
    Recognizes source.toList (blockComment p) pos none ∧
    Recognizes source.toList (lineComment p) pos none ∧
    Derives source source.size (keyValue p) pos next f := by
  have other {rule : ConfigRule} (derives : Derives source source.size rule pos next f)
      (apart : .keyValue ∉ rule.marks) : False :=
    apart (named ▸ derives.action_mem tree member)
  obtain read | ⟨-, bad⟩ := Derives.choice_iff.mp derives
  · obtain read | ⟨unread, pair⟩ := Derives.choice_iff.mp read
    · refine (other read ?_).elim
      simp [Rule.marks, blockComment, lineComment, sectionHeader, skippedSection, sectionName,
        Rule.text, Rule.push, Rule.prepare, Rule.cancel, Rule.pop, Rule.replaceScope, blanks, text,
        endOfLine, Rule.byte]
    · rw [inputUpTo_size] at unread
      obtain ⟨comments, -⟩ := Recognizes.choice_none_iff.mp unread
      exact ⟨(Recognizes.choice_none_iff.mp comments).1, (Recognizes.choice_none_iff.mp comments).2,
        pair⟩
  · exact (other bad (by simp [badLine, Rule.marks, Rule.sendNow])).elim

/-- Each tree in the journal of a file belongs to a content, which begins behind all blanks. -/
theorem Grammar.FileLines.content_of_mem {start : Nat} (lines : FileLines p source source.size start f)
    (inside : start ≤ source.toList.length) (member : tree ∈ f) :
    ∃ pos next g, pos ≤ source.toList.length ∧ Recognizes source.toList gap pos none ∧
      Derives source source.size (content p) pos next g ∧ tree ∈ g := by
  induction lines with
  | ends => cases member
  | @more _ pos next g _ spaces here _ ih =>
    rw [inputUpTo_size] at spaces
    have onward := spaces.advances inside
    have further := here.recognizes.advances (by rw [inputUpTo_size]; exact onward.2)
    rw [inputUpTo_size] at further
    rcases List.mem_append.mp member with first | later
    · refine ⟨pos, next, g, onward.2, ?_, here, first⟩
      obtain ⟨m, last, rfl | rfl⟩ := spaces.many_stops
      · exact last
      · exact absurd (last.eats onward.2 gap_eats) (Nat.lt_irrefl _)
    · exact ih further.2 later

/-- A key as it is delivered, and what may be said of comments in it. -/
theorem key_outside (solid : Recognizes source.toList gap pos none)
    (noBlock : Recognizes source.toList (blockComment p) pos none)
    (noLine : Recognizes source.toList (lineComment p) pos none)
    (inside : pos ≤ source.toList.length)
    (derives : Derives source source.size (.action (key p) .key) pos next f) :
    ∃ span : Span, f = [.node .key span []] ∧ KeyOutside p source (trimmed p span) := by
  obtain ⟨span, g, run, inSource, start, last, rfl⟩ := Derives.action_iff.mp derives
  have unmarked : (key p).unmarked = true := by
    unfold key
    split <;> rfl
  obtain rfl := run.unmarked unmarked
  refine ⟨span, rfl, ?_⟩
  have source_eq := (trimmed_source p span).trans inSource
  have unindented : span.Unindented := by
    intro b first
    obtain ⟨-, here⟩ := Span.byte_of_head first
    rw [inSource, start] at here
    have loose := (Recognizes.choice_none_iff.mp solid).1.no_byte_of_set here
    rwa [blank_iff, Bool.not_eq_true] at loose
  have begins : (trimmed p span).start = pos := (trimmed_start unindented).trans start
  have stands {mark : Bytes} (here : mark <+: (trimmed p span).bytes) :
      mark <+: source.toList.drop pos := by
    have behind := Span.stands_of_prefix here
    rwa [source_eq, begins] at behind
  refine ⟨fun here => blockComment_fails noBlock (stands here), fun here => ?_, ?_⟩
  · rw [begins]
    exact lineComment_fails noLine inside (stands here)
  · intro restricted mark odd here
    obtain ⟨b, member, outside⟩ := odd
    obtain ⟨i, after, before, there⟩ := Span.byte_of_mem (here.subset member)
    obtain ⟨first, second⟩ := trimmed_ends p span
    obtain ⟨c, same, named⟩ := key_named restricted run i (by omega) (by omega)
    rw [source_eq, Array.getElem?_toList, same] at there
    exact outside (Option.some.inj there ▸ named)

/-- A pair is a key, then what is left of a value, and then of a comment. -/
theorem pair_parts {stop : Nat} (derives : Derives source stop (keyValue p) pos next f) :
    ∃ span mid keys values comments, f = [.node .keyValue span (keys ++ values ++ comments)] ∧
      Derives source stop (.action (key p) .key) pos mid keys ∧
      (values = [] ∨ ∃ first last,
        Recognizes (inputUpTo source stop) (assignment p) mid (some first) ∧
        Derives source stop (value p) first last values) ∧
      ∀ part ∈ comments, part.action = .invalid := by
  obtain ⟨span, parts, whole, -, -, -, rfl⟩ := Derives.action_iff.mp derives
  obtain ⟨_, front, comments, read, comment, rfl⟩ := Derives.seq_iff.mp whole
  obtain ⟨mid, keys, values, name, content, rfl⟩ := Derives.seq_iff.mp read
  refine ⟨span, mid, keys, values, comments, rfl, name, ?_, fun part member => ?_⟩
  · obtain assigned | ⟨-, -, rfl⟩ := Derives.optional_iff.mp content
    · obtain ⟨_, g, h, assigns, value, rfl⟩ := Derives.seq_iff.mp assigned
      obtain rfl := assigns.unmarked rfl
      exact .inr ⟨_, _, assigns.recognizes, value⟩
    · exact .inl rfl
  · have marked := comment.action_mem part member
    simpa [Rule.marks, lineComment, blockComment, Rule.text, Rule.push, Rule.prepare, Rule.pop,
      Rule.cancel, text, blanks, endOfLine, Rule.byte] using marked

theorem value_marks (p : Policy) : .key ∉ (value p).marks := by
  unfold value
  split <;> simp [Rule.marks, bareValue, quoteMark, Rule.byte, Rule.sendNow]

/-- What stands in a pair and is not marked as broken: its key, or a part of its value. -/
theorem part_of_pair {stop : Nat} (derives : Derives source stop (keyValue p) pos next [tree])
    {part : Tree Action} (among : part ∈ tree.children) (sound : part.action ≠ .invalid) :
    ∃ mid, Recognizes (inputUpTo source stop) (key p) pos (some mid) ∧
      ((part.action = .key ∧ Derives source stop (.action (key p) .key) pos mid [part]) ∨
        ∃ first last values, Recognizes (inputUpTo source stop) (assignment p) mid (some first) ∧
          Derives source stop (value p) first last values ∧ part ∈ values) := by
  obtain ⟨_, mid, keys, values, comments, same, name, valued, commented⟩ := pair_parts derives
  obtain rfl := List.singleton_inj.mp same
  obtain ⟨span, _, -, -, -, -, rfl⟩ := Derives.action_iff.mp name
  refine ⟨mid, Recognizes.action_iff.mp name.recognizes, ?_⟩
  rcases List.mem_append.mp among with among | among
  · rcases List.mem_cons.mp among with rfl | among
    · exact .inl ⟨rfl, name⟩
    · obtain rfl | ⟨first, last, assigned, value⟩ := valued
      · cases among
      · exact .inr ⟨first, last, values, assigned, value, among⟩
  · exact absurd (commented part among) sound

/-- The key in a pair is read where the pair begins. -/
theorem key_of_pair {stop : Nat} (derives : Derives source stop (keyValue p) pos next [tree])
    {part : Tree Action} (among : part ∈ tree.children) (named : part.action = .key) :
    ∃ mid, Derives source stop (.action (key p) .key) pos mid [part] := by
  obtain ⟨mid, -, ⟨-, name⟩ | ⟨_, _, _, -, value, inside⟩⟩ :=
    part_of_pair derives among (named ▸ nofun)
  · exact ⟨mid, name⟩
  · exact absurd (named ▸ value.action_mem part inside) (value_marks p)

/-- A bare value in a pair is read behind the key and an assignment. -/
theorem bareValue_of_pair {stop : Nat} (derives : Derives source stop (keyValue p) pos next [tree])
    {part : Tree Action} (among : part ∈ tree.children) (named : part.action = .value) :
    ∃ mid first last, Recognizes (inputUpTo source stop) (key p) pos (some mid) ∧
      Recognizes (inputUpTo source stop) (assignment p) mid (some first) ∧
      Derives source stop (bareValue p) first last [part] := by
  obtain ⟨mid, keyed, ⟨isKey, -⟩ | ⟨first, last, _, assigned, value, inside⟩⟩ :=
    part_of_pair derives among (named ▸ nofun)
  · cases isKey.symm.trans named
  · exact ⟨mid, first, last, keyed, assigned, bareValue_of_value value inside named⟩

/-- What is read as a pair, in its parts. -/
theorem pair_outside (filled : p.Filled) (inside : pos ≤ source.toList.length)
    (solid : Recognizes source.toList gap pos none)
    (derives : Derives source source.size (content p) pos next f) (member : tree ∈ f)
    (named : tree.action = .keyValue) {name : Span} {content : Option Span}
    (found : pair? p tree.children = some (name, content)) :
    Derives source source.size (keyValue p) pos next [tree] ∧ KeyOutside p source name ∧
      ((∀ part ∈ tree.children, part.action ≠ .quotedValue) → ∀ v ∈ content, Uncommented p v) := by
  obtain ⟨noBlock, noLine, pair⟩ := pair_of_content derives member named
  obtain ⟨_, _, -, -, -, -, rfl⟩ := Derives.action_iff.mp pair
  obtain rfl := List.mem_singleton.mp member
  obtain ⟨keyed, contents⟩ := pair?_mem found
  refine ⟨pair, ?_, ?_⟩
  · obtain ⟨part, among, read⟩ := List.mem_filterMap.mp keyed
    obtain ⟨isKey, rfl⟩ := key?_eq read
    obtain ⟨_, first⟩ := key_of_pair pair among isKey
    obtain ⟨span, same, outside⟩ := key_outside solid noBlock noLine inside first
    obtain rfl := List.singleton_inj.mp same
    exact outside
  · intro unquoted v given
    obtain ⟨part, among, read⟩ := List.mem_filterMap.mp (contents v given)
    obtain ⟨isValue, rfl⟩ | ⟨quoted, -⟩ := value?_eq read
    · obtain ⟨_, _, _, -, -, bare⟩ := bareValue_of_pair pair among isValue
      obtain ⟨span, same, clear⟩ := bareValue_uncommented filled bare
      obtain rfl := List.singleton_inj.mp same
      exact clear
    · exact absurd quoted (unquoted part among)

/-- The key and the value that a call delivers. -/
def Call.setting? : Call → Option (Span × Option Span)
  | globalKey key value | sectionKey key value => some (key, value)
  | _ => none

/-- Settings are delivered from pairs. -/
theorem pair_of_setting {call : Call} {forest : List (Tree Action)} {inSection : Bool}
    (among : call ∈ calls p inSection forest) {setting : Span × Option Span}
    (given : call.setting? = some setting) :
    ∃ tree ∈ forest, tree.action = .keyValue ∧ pair? p tree.children = some setting := by
  induction forest generalizing inSection with
  | nil => cases among
  | cons tree rest ih =>
    have later {inSection : Bool} (among : call ∈ calls p inSection rest) :
        ∃ tree' ∈ tree :: rest, tree'.action = .keyValue ∧
          pair? p tree'.children = some setting := by
      obtain ⟨tree', member, found⟩ := ih among
      exact ⟨tree', List.mem_cons_of_mem _ member, found⟩
    rw [calls] at among
    split at among
    next named =>
      rcases List.mem_cons.mp among with rfl | among
      · cases given
      · exact later among
    next named =>
      split at among
      next key value found =>
        rcases List.mem_cons.mp among with rfl | among
        · refine ⟨tree, List.mem_cons_self .., named, ?_⟩
          rw [found]
          split at given <;> exact given
        · exact later among
      next => exact later among
    next => exact later among

end Pairs
end Config

open Config in
/-- Which comments stay out of what is delivered. Each setting is read from a pair. Its value holds
no comment, unless it was quoted; its key holds none that the rule of keys or the rules tried before
it keep out. -/
theorem parse_comments (p : Config.Parser) (source : Source) (client : Config.Client σ) (world : σ)
    (inOrder : p.policy.validate = .ok ()) (calm : client.Calm) :
    ∀ e ∈ (p.parse source client.logged { world }).world.calls, ∀ name content,
      e.given.setting? = some (name, content) →
      KeyOutside p.policy source name ∧
      ∃ pos next pair, Derives source source.size (Grammar.keyValue p.policy) pos next [pair] ∧
        pair? p.policy pair.children = some (name, content) ∧
        ((∀ part ∈ pair.children, part.action ≠ .quotedValue) →
          ∀ v ∈ content, Uncommented p.policy v) := by
  intro e member name content given
  have filled := Policy.filled_of_validate inOrder
  have balanced : (Grammar.root p.policy).Balanced := (Shipped.config p.policy).balanced
  obtain ⟨course, fits, derived⟩ :=
    Driver.parse_fits balanced p.driver source 0 source.size (·.all isValid)
  obtain ⟨heard, part, last, logged, -, calls, -⟩ :=
    p.parse_log source 0 source.size world calm fits
  rw [Parser.parse, logged] at member
  have among := calls.given_mem member
  cases replayed : course.forest? with
  | none =>
    rw [replayed] at among
    cases among
  | some forest =>
    rw [replayed] at among
    obtain ⟨next, derives⟩ := derived forest replayed
    rw [Nat.min_self] at derives
    obtain ⟨-, lines⟩ := filled.root_iff.mp derives
    rcases List.mem_append.mp among with among | closing
    · obtain ⟨pair, inForest, named, found⟩ := pair_of_setting among given
      obtain ⟨pos, next, f, inside, solid, read, inLine⟩ :=
        lines.content_of_mem (Nat.zero_le _) inForest
      obtain ⟨derives, outside, uncommented⟩ :=
        pair_outside filled inside solid read inLine named found
      exact ⟨outside, pos, next, pair, derives, found, uncommented⟩
    · rw [List.mem_singleton.mp closing] at given
      cases given

/-- A comment mark in a key, and a comment behind a value. -/
theorem parse_comments_marked_key :
    let p := Config.Parser.build {}
    let source : Source := (Text.utf8 "a;b=c;d\n").toArray
    let given := (p.parse source Config.Client.deaf.logged { world := () }).world.calls
    p.policy.validate = .ok () ∧ Config.Client.deaf.Calm ∧
    ∃ e ∈ given, ∃ name value, e.given.setting? = some (name, some value) ∧
      name.bytes = Text.utf8 "a;b" ∧ value.bytes = Text.utf8 "c" ∧
      Config.KeyOutside p.policy source name ∧
      ∃ pos next pair,
        Derives source source.size (Config.Grammar.keyValue p.policy) pos next [pair] ∧
        Config.pair? p.policy pair.children = some (name, some value) ∧
        ((∀ part ∈ pair.children, part.action ≠ .quotedValue) →
          Config.Uncommented p.policy value) := by
  intro p source given
  have inOrder : p.policy.validate = .ok () := by decide +kernel
  have shown : (given.filterMap (·.given.setting?)).map
      (fun setting => (setting.1.bytes, setting.2.map Span.bytes)) =
        [(Text.utf8 "a;b", some (Text.utf8 "c"))] := by
    decide +kernel
  obtain ⟨⟨name, content⟩, rest, settings, same, -⟩ := List.map_eq_cons_iff.mp shown
  obtain ⟨key, valued⟩ := Prod.mk.inj same
  obtain ⟨v, rfl, value⟩ := Option.map_eq_some_iff.mp valued
  have member : (name, some v) ∈ given.filterMap (·.given.setting?) := by simp [settings]
  obtain ⟨e, among, delivers⟩ := List.mem_filterMap.mp member
  obtain ⟨outside, pos, next, pair, derives, found, uncommented⟩ :=
    parse_comments p source .deaf () inOrder Config.Parser.deaf_calm e among name (some v) delivers
  exact ⟨inOrder, Config.Parser.deaf_calm, e, among, name, v, delivers, key, value, outside, pos,
    next, pair, derives, found, fun unquoted => uncommented unquoted v rfl⟩

/-- A line comment behind a bare key is delivered with the key. -/
theorem comment_delivered :
    let p := Config.Parser.build {}
    let run := p.parse (Text.utf8 "a ; b\n").toArray Config.Client.deaf.logged { world := () }
    p.policy.validate = .ok () ∧
    ¬ ∀ e ∈ run.world.calls, ∀ setting, e.given.setting? = some setting →
      Config.Uncommented p.policy setting.1 := by
  intro p run
  refine ⟨by decide +kernel, fun clear => ?_⟩
  have marked : (run.world.calls.filterMap (·.given.setting?)).any
      (fun setting => decide (Text.utf8 p.policy.lineComment <:+: setting.1.bytes)) = true := by
    decide +kernel
  obtain ⟨setting, member, holds⟩ := List.any_eq_true.mp marked
  obtain ⟨e, among, delivers⟩ := List.mem_filterMap.mp member
  exact (clear e among setting delivers).2 (of_decide_eq_true holds)

end Backtrack
