import Backtrack.Proofs.Inversion
import Backtrack.Proofs.Lookahead
import Backtrack.Proofs.QuotedText
import Backtrack.Proofs.Volume

/-! Comments as they are written. Their content holds no two dashes in a row and does not end in
one, so it comes apart into single characters and dashes each with the character behind it, which is
how the rule reads it. What follows the content then cannot be mistaken for more of it, and whatever
begins like a comment and is none is skipped to a NUL, or not parsed. -/
namespace Backtrack

variable {σ : Type}

namespace Xml

/-- Printable ASCII and whitespace. -/
def CommentChar (b : UInt8) : Prop :=
  (0x20 ≤ b ∧ b ≤ 0x7E) ∨ b = 0x09 ∨ b = 0x0A ∨ b = 0x0D

instance (b : UInt8) : Decidable (CommentChar b) := by unfold CommentChar; infer_instance

structure CommentBody (content : Bytes) : Prop where
  inside : ∀ b ∈ content, CommentChar b
  single : ¬ [0x2D, 0x2D] <:+: content
  last : content.getLast? ≠ some 0x2D

structure CommentText where
  content : Bytes
  body : CommentBody content

def CommentText.print (c : CommentText) : Bytes :=
  Text.utf8 "<!--" ++ c.content ++ Text.utf8 "-->"

section Body

variable {content : Bytes} {b : UInt8}

theorem CommentBody.nil : CommentBody [] := ⟨by simp, by simp, by simp⟩

/-- Behind a dash something else follows. -/
theorem commentBody_cons : CommentBody (b :: content) ↔
    CommentChar b ∧ (b = 0x2D → ∃ c ∈ content.head?, c ≠ 0x2D) ∧ CommentBody content := by
  constructor
  · intro body
    obtain ⟨here, others⟩ := List.forall_mem_cons.mp body.inside
    refine ⟨here, ?_, others,
      fun double => body.single (double.trans (List.suffix_cons ..).isInfix), fun last => ?_⟩
    · rintro rfl
      cases content with
      | nil => exact absurd rfl body.last
      | cons c content =>
        refine ⟨c, rfl, ?_⟩
        rintro rfl
        exact body.single ⟨[], content, rfl⟩
    · exact body.last (by simp [List.getLast?_cons, last])
  · rintro ⟨here, alone, body⟩
    refine ⟨List.forall_mem_cons.mpr ⟨here, body.inside⟩, fun double => ?_, fun last => ?_⟩
    · rcases List.infix_cons_iff.mp double with first | later
      · obtain ⟨same, next⟩ := List.cons_prefix_cons.mp first
        obtain ⟨c, begins, other⟩ := alone same.symm
        obtain ⟨more, rfl⟩ := next
        exact other (by simpa using begins.symm)
      · exact body.single later
    · cases content with
      | nil =>
        obtain ⟨c, begins, -⟩ := alone (by simpa using last)
        simp at begins
      | cons c content => exact body.last (by simpa [List.getLast?_cons] using last)

end Body

namespace Comment

theorem contains_plain (b : UInt8) :
    (CharSet.printable \ .ofBytes [0x2D] ∪ whitespace).contains b = true ↔
      CommentChar b ∧ b ≠ 0x2D := by
  have spaces : whitespace.contains b = true ↔ b ∈ [0x20, 0x09, 0x0D, 0x0A] :=
    CharSet.contains_ofBytes ..
  rw [CharSet.contains_union, CharSet.contains_sdiff, CharSet.contains_printable,
    CharSet.contains_byte, spaces]
  unfold CommentChar
  grind

/-- A character of the content, behind a dash or not. -/
structure Piece where
  dashed : Bool
  byte : UInt8
  inside : CommentChar byte
  plain : byte ≠ 0x2D

def Piece.print (piece : Piece) : Bytes :=
  (if piece.dashed then [0x2D] else []) ++ [piece.byte]

theorem body_of_pieces (pieces : List Piece) : CommentBody (pieces.flatMap Piece.print) := by
  induction pieces with
  | nil => exact .nil
  | cons piece pieces ih =>
    obtain ⟨dashed, b, inside, plain⟩ := piece
    have alone : CommentBody (b :: pieces.flatMap Piece.print) :=
      commentBody_cons.mpr ⟨inside, fun dash => absurd dash plain, ih⟩
    cases dashed with
    | false => exact alone
    | true => exact commentBody_cons.mpr ⟨by decide, fun _ => ⟨b, rfl, plain⟩, alone⟩

theorem pieces_of_body : ∀ {content : Bytes}, CommentBody content →
    ∃ pieces : List Piece, content = pieces.flatMap Piece.print
  | [], _ => ⟨[], rfl⟩
  | b :: content, body => by
    obtain ⟨inside, alone, later⟩ := commentBody_cons.mp body
    by_cases dash : b = 0x2D
    · obtain ⟨c, begins, plain⟩ := alone dash
      cases content with
      | nil => simp at begins
      | cons d content =>
        obtain rfl : d = c := by simpa using begins
        obtain ⟨inside, -, last⟩ := commentBody_cons.mp later
        obtain ⟨pieces, rfl⟩ := pieces_of_body last
        exact ⟨⟨true, d, inside, plain⟩ :: pieces, by rw [dash]; rfl⟩
    · obtain ⟨pieces, rfl⟩ := pieces_of_body later
      exact ⟨⟨false, b, inside, dash⟩ :: pieces, rfl⟩

theorem plain_spells : Spells plain fun c : { c // CommentChar c ∧ c ≠ 0x2D } => [c.1] :=
  (Rule.Spells.set _).map (fun c => ⟨c.1, (contains_plain _).mp c.2⟩) fun _ => rfl

theorem content_spells : Spells content fun c : { c // CommentBody c } => c.1 := by
  have single : Spells plain Piece.print :=
    plain_spells.map (fun c => ⟨false, c.1, c.2.1, c.2.2⟩) fun _ => rfl
  have dashed : Spells (char '-' ++ plain) Piece.print :=
    ((Rule.Spells.byte _).seq plain_spells).map
      (fun parts => ⟨true, parts.2.1, parts.2.2.1, parts.2.2.2⟩) fun _ => rfl
  exact ((single.choice dashed).many.map (fun pieces => ⟨_, body_of_pieces pieces⟩)
    fun _ => rfl).action _

/-- A match that skips nothing is over a comment. -/
theorem spells : Spells rule CommentText.print :=
  (((Rule.Spells.literal _).effect _).seq
    ((content_spells.seq ((Rule.Spells.literal _).effect _)).choice
      ((((skipped_spells _ fun c : { c // CommentBody c } × Unit => c.1.1 ++ Text.utf8 "-->").effect
        _).effect _)))).map (fun parts => ⟨parts.2.1.1, parts.2.1.2⟩) fun _ => by
    simp [CommentText.print]

section Telling

variable {rest : Bytes}

theorem plain_reads {b : UInt8} (inside : CommentChar b) (other : b ≠ 0x2D) (rest : Bytes) :
    plain.Reads [b] rest :=
  .set ((contains_plain b).mpr ⟨inside, other⟩) rest

theorem plain_rejects (rest : Bytes) : plain.Rejects (0x2D :: rest) :=
  .set (bars_cons (by decide +kernel) rest)

theorem piece_reads (piece : Piece) (rest : Bytes) :
    (plain ||| (char '-' ++ plain)).Reads piece.print rest := by
  obtain ⟨dashed, b, inside, other⟩ := piece
  have here := plain_reads inside other rest
  cases dashed with
  | false => exact fun input pos faces => .choiceLeft (here input pos faces)
  | true =>
    exact .choiceRight (plain_rejects _) (.seq (byte_reads 0x2D ([b] ++ rest)) here)

/-- The end of a comment is no part of its content. -/
theorem piece_rejects (rest : Bytes) :
    (plain ||| (char '-' ++ plain)).Rejects (Text.utf8 "-->" ++ rest) := by
  have dash : (char '-').Reads [0x2D] (0x2D :: 0x3E :: rest) := byte_reads _ _
  have dashed : (char '-' ++ plain).Rejects ([0x2D] ++ 0x2D :: 0x3E :: rest) :=
    .seqSecond dash (plain_rejects _)
  exact .choice (plain_rejects _) dashed

theorem content_tells (c : CommentText) (rest : Bytes) :
    Tells Construct.comment.items content c.content (Text.utf8 "-->" ++ rest)
      fun source pos => [.call (.comment (.ofText source pos c.content))] := by
  obtain ⟨pieces, split⟩ := pieces_of_body c.body
  have told : Tells (fun _ => ([] : List Unit)) (.many (plain ||| (char '-' ++ plain)))
      (pieces.flatMap Piece.print) (Text.utf8 "-->" ++ rest)
      fun _ => spread Piece.print (fun _ _ => []) pieces :=
    .many pieces (fun piece more => (piece_reads piece _).tells rfl)
      (fun piece => by simp [Piece.print]) (piece_rejects rest)
  rw [split]
  exact told.spanned (fun span => [Item.call (Call.comment span)]) rfl fun _ _ => rfl

end Telling
end Comment

/-- The rule matches a comment and tells its content. -/
theorem CommentText.tells (c : CommentText) (rest : Bytes) :
    Tells Construct.comment.items Comment.rule c.print rest fun source pos =>
      [.call (.comment (.ofText source (pos + 4) c.content))] := by
  have closing : Tells Construct.comment.items (Rule.text "-->").cancel (Text.utf8 "-->") rest _ :=
    (Rule.Tells.literal _ _).effect _
  refine (((Rule.Tells.literal (Text.utf8 "<!--") _).effect _).seq
    ((Comment.content_tells c rest).seq closing).choiceLeft).as ?_ fun source pos => ?_
  · simp [print]
  · rfl

theorem CommentText.print_ne_nil (c : CommentText) : c.print ≠ [] := List.cons_ne_nil _ _

theorem CommentText.print_injective {c d : CommentText} (same : c.print = d.print) : c = d := by
  obtain ⟨x, first⟩ := c
  obtain ⟨y, second⟩ := d
  obtain rfl : x = y := List.append_cancel_left (List.append_cancel_right same)
  rfl

section Sources

variable {source : Source}

/-- No two comments begin a source. -/
theorem CommentText.begins_once {c d : CommentText} (first : c.print <+: source.toList)
    (second : d.print <+: source.toList) : c = d := by
  have derives {c : CommentText} (begins : c.print <+: source.toList) :
      ∃ f, Derives source source.size Comment.rule 0 (0 + c.print.length) f := by
    obtain ⟨rest, split⟩ := begins
    obtain ⟨f, derives, -⟩ := c.tells rest source source.size 0 (.start split.symm)
    exact ⟨f, derives⟩
  obtain ⟨f, here⟩ := derives first
  obtain ⟨g, there⟩ := derives second
  have length : c.print.length = d.print.length := by
    have same := here.same_end there
    omega
  refine print_injective ?_
  exact (List.prefix_of_prefix_length_le first second length.le).eq_of_length length

/-- Where no comment begins a source, what matches there has been skipped to a NUL. -/
theorem Comment.derives_skipped (none : ∀ c : CommentText, ¬ c.print <+: source.toList)
    {next : Nat} {f : List (Tree Action)}
    (derives : Derives source source.size Comment.rule 0 next f) :
    (Text.utf8 "<!--" <+: source.toList ∧ 0 ∈ source.toList.drop 4) ∧
      ∃ span, f = [.node .invalid span []] := by
  have dirty : Tree.defects (· == .invalid) f ≠ 0 := fun clean => by
    obtain ⟨c, rest, split, -⟩ := Comment.spells.begins derives clean
    exact none c ⟨rest, split.symm⟩
  obtain ⟨mid, g, h, start, body, rfl⟩ := Derives.seq_iff.mp derives
  have begins := Recognizes.literal_iff.mp (Recognizes.effect_iff.mp start.recognizes)
  rw [inputUpTo_size, List.drop_zero] at begins
  obtain rfl : g = [] := start.unmarked rfl
  split at begins
  next opened =>
    obtain rfl : mid = 4 := Option.some.inj begins
    rcases Derives.choice_iff.mp body with whole | ⟨-, skip⟩
    · obtain ⟨_, _, _, content, closing, rfl⟩ := Derives.seq_iff.mp whole
      obtain ⟨span, k, plain, -, -, -, rfl⟩ := Derives.action_iff.mp content
      obtain rfl := plain.unmarked rfl
      obtain rfl := closing.unmarked rfl
      exact absurd rfl dirty
    · obtain ⟨span, k, plain, -, -, -, rfl⟩ :=
        Derives.action_iff.mp (Derives.effect_iff.mp (Derives.effect_iff.mp skip))
      obtain rfl := plain.unmarked rfl
      refine ⟨⟨opened, ?_⟩, span, rfl⟩
      have found := (Recognizes.leaf_iff rfl).mp plain.recognizes
      obtain ⟨i, first, -⟩ := Option.map_eq_some_iff.mp found.symm
      obtain ⟨short, member, -⟩ := List.findIdx?_eq_some_iff_getElem.mp first
      rw [CharSet.contains_byte] at member
      rw [← inputUpTo_size source, ← member]
      exact List.getElem_mem short
  next => cases begins

/-- Whatever begins like a comment and has a NUL behind that is matched. -/
theorem Comment.derives_of_nul (opened : Text.utf8 "<!--" <+: source.toList)
    (nul : 0 ∈ source.toList.drop 4) :
    ∃ next f, Derives source source.size Comment.rule 0 next f := by
  rw [← inputUpTo_size source] at opened nul
  have start : Recognizes (inputUpTo source source.size)
      ((Rule.text "<!--").push (minor "Found start of comment, but not end of comment.") : XmlRule)
      0 (some 4) :=
    .effect (Recognizes.literal_iff.mpr (by rw [List.drop_zero, if_pos opened]; rfl))
  obtain ⟨i, first⟩ : ∃ i, ((inputUpTo source source.size).drop 4).findIdx?
      (CharSet.ofBytes [0]).contains = some i := by
    refine Option.isSome_iff_exists.mp ?_
    rw [List.findIdx?_isSome, List.any_eq_true]
    exact ⟨0, nul, CharSet.contains_ofBytes_singleton 0⟩
  have skip : Recognizes (inputUpTo source source.size) (skipToNul : XmlRule) 4
      (some (4 + i + 1)) :=
    (Recognizes.leaf_iff rfl).mpr (by rw [first]; rfl)
  obtain ⟨m, whole⟩ := Recognizes.exists (inputUpTo source source.size)
    (Comment.content ++ (Rule.text "-->").cancel) 4
  have matched : ∃ next, Recognizes (inputUpTo source source.size) Comment.rule 0 (some next) := by
    cases m with
    | none => exact ⟨_, .seq start (.choiceRight whole (.effect (.effect (.action skip))))⟩
    | some next => exact ⟨next, .seq start (.choiceLeft whole)⟩
  obtain ⟨next, matched⟩ := matched
  exact ⟨next, matched.derives (Nat.zero_le _)⟩

end Sources
end Xml

/-- The parser of comments decides every source, under any budget that a driver takes. At most one
comment begins a source. If there is one, the source is valid as a whole if it is that comment and
else begins with something valid, and the receiver of a client that never gives up is given its
content alone. If there is none, the receiver is given nothing, and a source that begins like a
comment and has a NUL behind that is not valid, while any other is not parsed. -/
theorem parse_classifies_comment (p : Xml.Parser) (source : Source) (client : Xml.Client σ)
    (world : σ) (idle : p.driver.busy = false) (budget : leastBudget ≤ p.driver.budget)
    (calm : client.Calm) (filled : source.toList ≠ []) :
    let run := p.parse .comment source client.logged { world }
    p.parse .comment source client world = ⟨run.parser, run.world.world, run.outcome⟩ ∧
    (∀ c d : Xml.CommentText, c.print <+: source.toList → d.print <+: source.toList → c = d) ∧
    (∀ c : Xml.CommentText, c.print <+: source.toList →
      run.outcome = .ok (if source.toList = c.print then .allValid else .someValid) ∧
      (Span.ofText source 4 c.content).bytes = c.content ∧
      (client.Accepting →
        run.world.calls.map (·.given) = [.comment (.ofText source 4 c.content)])) ∧
    ((∀ c : Xml.CommentText, ¬ c.print <+: source.toList) →
      run.outcome = .ok (if Text.utf8 "<!--" <+: source.toList ∧ 0 ∈ source.toList.drop 4
        then .notValid else .notParsed) ∧
      run.world.calls = []) := by
  intro run
  have least : leastBudget = 4 := rfl
  refine ⟨p.parse_logged .comment source client world, fun _ _ => Xml.CommentText.begins_once,
    fun c begins => ?_, fun none => ?_⟩
  · obtain ⟨rest, split⟩ := begins
    obtain ⟨answered, -, -, -, -, given⟩ := p.parse_written .comment source world idle (by omega)
      calm (c.tells rest) c.print_ne_nil split.symm
    have whole : source.toList = c.print ↔ rest = [] := by
      rw [← split]
      exact List.append_right_eq_self
    refine ⟨?_, ?_, given⟩
    · rw [answered]
      simp only [whole]
    · have faces : Faces source.toList 0 (Text.utf8 "<!--" ++
          (c.content ++ (Text.utf8 "-->" ++ rest))) :=
        ⟨Nat.zero_le _, by simp [← split, Xml.CommentText.print]⟩
      exact Xml.ofText_bytes faces.step
  · have known : Xml.Construct.comment.rule.volume? = some ⟨2, 0⟩ := rfl
    have residue : Xml.Construct.comment.rule.residue = 1 := rfl
    obtain ⟨next, f, derives, answered, delivered, -⟩ | ⟨answered, uncalled, unmatched⟩ :=
      p.parse_decided .comment source world idle calm filled known (by dsimp only; omega)
        (by dsimp only; omega)
    · obtain ⟨opened, span, rfl⟩ := Xml.Comment.derives_skipped none derives
      rw [if_pos opened]
      exact ⟨answered, delivered.eq_nil⟩
    · rw [if_neg fun opened => ?_]
      · exact ⟨answered, uncalled⟩
      · obtain ⟨next, f, derives⟩ := Xml.Comment.derives_of_nul opened.1 opened.2
        exact unmatched next f derives

/-- A comment with a dash in it and more behind, and one that two dashes spoil. -/
theorem parse_classifies_comment_dashes :
    let c : Xml.CommentText := ⟨Text.utf8 "a-b", by decide +kernel, by decide, by decide⟩
    let source : Source := (Text.utf8 "<!--a-b-->--").toArray
    let spoilt : Source := (Text.utf8 "<!--a--b-->\x00").toArray
    let parse (source : Source) := (({} : Xml.Parser).withBudget 0).parse .comment source
      Xml.Client.deaf.logged { world := () }
    (({} : Xml.Parser).withBudget 0).driver.busy = false ∧
    leastBudget ≤ (({} : Xml.Parser).withBudget 0).driver.budget ∧ Xml.Client.deaf.Calm ∧
    source.toList ≠ [] ∧ spoilt.toList ≠ [] ∧ Xml.Client.deaf.Accepting ∧
    c.print <+: source.toList ∧ (parse source).outcome = .ok .someValid ∧
    (parse source).world.calls.map (·.given) = [.comment (.clamp source 4 7)] ∧
    (∀ d : Xml.CommentText, ¬ d.print <+: spoilt.toList) ∧
    (parse spoilt).outcome = .ok .notValid ∧ (parse spoilt).world.calls = [] := by
  intro c source spoilt parse
  have calm : Xml.Client.deaf.Calm := Xml.Parser.deaf_calm
  have accepting : Xml.Client.deaf.Accepting := fun _ _ _ => rfl
  have budget : leastBudget ≤ (({} : Xml.Parser).withBudget 0).driver.budget := by decide
  have begins : c.print <+: source.toList := by decide
  have filled : source.toList ≠ [] := List.cons_ne_nil _ _
  have filled' : spoilt.toList ≠ [] := List.cons_ne_nil _ _
  obtain ⟨-, -, valid, -⟩ :=
    parse_classifies_comment (.withBudget {} 0) source .deaf () rfl budget calm filled
  obtain ⟨answered, -, given⟩ := valid c begins
  obtain ⟨-, -, valid', skipped⟩ :=
    parse_classifies_comment (.withBudget {} 0) spoilt .deaf () rfl budget calm filled'
  have judged : (parse spoilt).outcome.toOption = some .notValid := by decide +kernel
  have none (d : Xml.CommentText) : ¬ d.print <+: spoilt.toList := fun begins => by
    have found := congrArg Except.toOption (valid' d begins).1
    have same := judged.symm.trans found
    split at same <;> cases same
  obtain ⟨answered', uncalled⟩ := skipped none
  exact ⟨rfl, budget, calm, filled, filled', accepting, begins, answered.trans rfl,
    (given accepting).trans rfl, none, answered'.trans rfl, uncalled⟩

end Backtrack
