import Backtrack.Proofs.QuotedText

/-! The rule of attribute-list declarations matches every written declaration and tells it part by
part. What follows a part is told from it by its first byte: whitespace from names, delimiters from
both. -/
namespace Backtrack.Xml

variable {β δ : Type}

theorem ValueText.tells (v : ValueText) (rest : Bytes) :
    Tells AttributeList.partItems AttributeValue.rule v.print rest fun source pos =>
      [.block .openAttributeValue (v.calls source pos)] :=
  AttributeValue.grammar.rule_tells (fun calls => [Item.block .openAttributeValue calls])
    (fun _ _ _ => rfl) ⟨v.quote, v.content.first, v.content.others⟩ rest

section Alternatives

variable {rest : Bytes}

theorem delimiter_reads (before after : Gap) (barred : Bars whitespace rest) :
    EnumeratedType.delimiter.Reads (before.bytes ++ Text.utf8 "|" ++ after.bytes) rest := by
  have bar : Bars whitespace (Text.utf8 "|" ++ (after.bytes ++ rest)) :=
    bars_cons rfl _
  exact (((Gap.reads before bar).seq (byte_reads _ _)).seq (Gap.reads after barred)).effect _

/-- What ends a list of alternatives. -/
def Gap.ending (after : Gap) : Bytes := after.bytes ++ Text.utf8 ")"

theorem Gap.ending_bars {t : CharSet} (after : Gap) (apart : whitespace.disjoint t = true)
    (outside : t.contains 0x29 = false) (rest : Bytes) : Bars t (after.ending ++ rest) := by
  rw [ending, List.append_assoc]
  exact after.bars apart (bars_cons outside _)

theorem delimiter_rejects (after : Gap) (rest : Bytes) :
    EnumeratedType.delimiter.Rejects (after.ending ++ rest) := by
  have gap : blank.Reads after.bytes (Text.utf8 ")" ++ rest) :=
    Gap.reads after (bars_cons rfl _)
  have other : (char '|').Rejects (Text.utf8 ")" ++ rest) := .set (bars_cons rfl _)
  rw [Gap.ending, List.append_assoc]
  exact (Rule.Rejects.seqSecond gap other).seq.effect _

theorem close_tells (view : Tree Action → List β) (after : Gap) (rest : Bytes) :
    Tells view EnumeratedType.close after.ending rest fun _ _ => [] := by
  have gap : blank.Reads after.bytes (Text.utf8 ")" ++ rest) :=
    Gap.reads after (bars_cons rfl _)
  exact ((gap.seq (byte_reads _ _)).effect _).tells rfl

variable (text : δ → Bytes)

/-- What follows an alternative begins with whitespace, a bar or a parenthesis. -/
theorem alternatives_bars (others : List (Gap × Gap × δ)) (after : Gap) (rest : Bytes) :
    Bars nameChar (others.flatMap (Choices.printOther text) ++ (after.ending ++ rest)) := by
  cases others with
  | nil => exact after.ending_bars rfl rfl rest
  | cons other others =>
    simp only [List.flatMap_cons, Choices.printOther, List.append_assoc]
    exact other.1.bars rfl (bars_cons rfl _)

variable {one : XmlRule} {make : Span → Call}
  (begins : ∀ d rest, Bars whitespace (text d ++ rest))
  (each : ∀ d rest, Bars nameChar rest → Tells EnumeratedType.partCalls one (text d) rest
    fun source pos => [make (.ofText source pos (text d))])
include begins each

theorem others_tells (others : List (Gap × Gap × δ)) (after : Gap) (rest : Bytes) :
    Tells EnumeratedType.partCalls (.many (EnumeratedType.delimiter ++ one))
      (others.flatMap (Choices.printOther text)) (after.ending ++ rest)
      fun source => spread (Choices.printOther text)
        (fun other pos =>
          [make (.ofText source (pos + other.1.bytes.length + 1 + other.2.1.bytes.length)
            (text other.2.2))]) others := by
  refine .many others (fun other more => ?_) (fun other => ?_) (delimiter_rejects after rest).seq
  · have barred := alternatives_bars text more after rest
    have bar := delimiter_reads other.1 other.2.1 (begins other.2.2
      (more.flatMap (Choices.printOther text) ++ (after.ending ++ rest)))
    refine ((bar.tells rfl).seq (each other.2.2 _ barred)).as rfl fun source pos => ?_
    simp [Nat.add_assoc]
    rfl
  · simp [Choices.printOther, Text.utf8]

/-- A list of alternatives behind what stands in front of its parenthesis. -/
theorem Choices.tells (choices : Choices δ) {opening : XmlRule} {front : Bytes}
    (plain : opening.unmarked = true)
    (opens : ∀ rest, Bars whitespace rest →
      opening.Reads (front ++ (Text.utf8 "(" ++ choices.before.bytes)) rest) (rest : Bytes) :
    Tells EnumeratedType.partCalls
      (opening ++ one ++ .many (EnumeratedType.delimiter ++ one) ++ EnumeratedType.close)
      (front ++ choices.print text) rest
      fun source pos => choices.calls source text make (pos + front.length) := by
  have barred := alternatives_bars text choices.others choices.after rest
  have begun (rest : Bytes) :
      Tells EnumeratedType.partCalls opening _ (text choices.first ++ rest) _ :=
    (opens _ (begins choices.first rest)).tells plain
  have listed := ((begun _).seq (each choices.first _ barred)).seq
    (others_tells text begins each choices.others choices.after rest)
  refine (listed.seq (close_tells _ choices.after rest)).as ?_ fun source pos => ?_
  · simp [print, Gap.ending]
  · have length : (Text.utf8 "(").length = 1 := rfl
    simp [calls, length, Nat.add_assoc]

end Alternatives

section Types

variable {rest : Bytes}

/-- A type that lists alternatives, as an attribute's type and as a block. -/
theorem enumerated_tells {t : TypeText} {said : Source → Nat → List Call}
    (told : Tells EnumeratedType.partCalls (EnumeratedType.notations ||| EnumeratedType.enumeration)
      t.print rest said)
    (block : ∀ source pos, t.calls source pos =
      said source pos ++ [.enumeratedTypeDone true (.ofText source pos t.print)]) :
    Tells AttributeList.partItems EnumeratedType.rule t.print rest fun source pos =>
      [.call (.attributeType .enumerated), .block .openEnumeratedType (t.calls source pos)] := by
  refine Rule.Tells.action told.choiceLeft rfl fun source pos f shown clean => ?_
  have valid := isValid_node .enumeratedType rfl (.ofText source pos t.print) clean
  have calls : EnumeratedType.calls (.node .enumeratedType (.ofText source pos t.print) f) =
      t.calls source pos := by
    simp only [EnumeratedType.calls, Tree.action, Tree.children, Tree.span, shown, valid, block]
  rw [← calls]
  rfl

theorem notations_tells (gap : Gap) (names : Choices NameText) :
    Tells AttributeList.partItems EnumeratedType.rule (TypeText.notations gap names).print rest
      fun source pos => (TypeText.notations gap names).items source pos := by
  have opens (rest : Bytes) (barred : Bars whitespace rest) :
      ((Rule.text "NOTATION").push (major "Did not find starting parenthesis for notation.") ++
        (blank ++ char '(' ++ blank).prepare (major "Did not find content for notation.")).Reads
        (Text.utf8 "NOTATION" ++ gap.bytes ++ (Text.utf8 "(" ++ names.before.bytes)) rest := by
    have parenthesis : Bars whitespace (Text.utf8 "(" ++ (names.before.bytes ++ rest)) :=
      bars_cons rfl _
    have bracket : (char '(').Reads (Text.utf8 "(") (names.before.bytes ++ rest) := byte_reads _ _
    rw [List.append_assoc, ← List.append_assoc gap.bytes]
    exact ((Rule.Reads.literal _ _).effect _).seq
      ((((Gap.reads gap parenthesis).seq bracket).seq (Gap.reads names.before barred)).effect _)
  have named (name : NameText) (rest : Bytes) (barred : Bars nameChar rest) :
      Tells EnumeratedType.partCalls EnumeratedType.notationName name.bytes rest
        fun source pos => [.notationName (.ofText source pos name.bytes)] :=
    ((name.tells barred fun _ => ([] : List Unit)).spanned
      (fun span => [Call.notationName span]) rfl
      fun _ _ => rfl).effect _
  have told := names.tells NameText.bytes (fun name => name.bars rfl) named rfl opens rest
  refine enumerated_tells told.choiceLeft fun source pos => ?_
  simp [TypeText.calls, Nat.add_assoc]

theorem enumeration_tells (tokens : Choices TokenText) :
    Tells AttributeList.partItems EnumeratedType.rule (TypeText.enumeration tokens).print rest
      fun source pos => (TypeText.enumeration tokens).items source pos := by
  have opens (rest : Bytes) (barred : Bars whitespace rest) :
      ((char '(' ++ blank).push (major "Did not find content for enumeration.")).Reads
        ([] ++ (Text.utf8 "(" ++ tokens.before.bytes)) rest :=
    ((byte_reads _ _).seq (Gap.reads tokens.before barred)).effect _
  have named (token : TokenText) (rest : Bytes) (barred : Bars nameChar rest) :
      Tells EnumeratedType.partCalls EnumeratedType.token token.bytes rest
        fun source pos => [.enumeration (.ofText source pos token.bytes)] :=
    (Rule.Tells.leaf (token.reads barred) rfl rfl).effect _
  have told := tokens.tells (·.bytes) (fun token => token.bars rfl) named rfl opens rest
  have other : EnumeratedType.notations.Rejects ((TypeText.enumeration tokens).print ++ rest) := by
    have parenthesis : Bars (.ofBytes [0x4E]) ((TypeText.enumeration tokens).print ++ rest) :=
      bars_cons rfl _
    exact .seq (.seq (.seq (.seq (.effect (.literal_first parenthesis _) _))))
  refine enumerated_tells (told.choiceRight other) fun source pos => ?_
  simp [TypeText.calls]

theorem keyword_tells {type : AttributeType} (named : type ∈ AttributeType.keywords)
    (barred : Bars .alpha rest) :
    Tells AttributeList.partItems (.firstOf (AttributeType.keywords.map fun t =>
      (Rule.text t.name).action (.attributeType t))) (Text.utf8 type.name) rest
      fun _ _ => [.call (.attributeType type)] := by
  have letters : ∀ t ∈ AttributeType.keywords,
      (Text.utf8 t.name).all CharSet.alpha.contains = true := by decide
  have inOrder : AttributeType.keywords.Pairwise fun u t =>
      ¬ Text.utf8 u.name <+: Text.utf8 t.name := by decide
  obtain ⟨before, after, split⟩ := List.append_of_mem named
  rw [split, List.map_append, List.map_cons]
  refine .firstOf ?_ (.leaf (.literal _ _) rfl rfl)
  intro rule member
  obtain ⟨u, earlier, rfl⟩ := List.mem_map.mp member
  rw [split] at inOrder letters
  have longer := (List.pairwise_append.mp inOrder).2.2 u earlier type (List.mem_cons_self ..)
  exact .action (.literal_longer longer (letters u (List.mem_append_left _ earlier)) barred) _

/-- No keyword stands where a list of alternatives begins. -/
theorem keywords_reject (front : Bytes) (apart : ∀ t ∈ AttributeType.keywords,
    ¬ Text.utf8 t.name <+: front ∧ ¬ front <+: Text.utf8 t.name) (rest : Bytes) :
    (Rule.firstOf (AttributeType.keywords.map fun t =>
      (Rule.text t.name).action (.attributeType t)) : XmlRule).Rejects (front ++ rest) := by
  refine .firstOf fun rule member => ?_
  obtain ⟨t, named, rfl⟩ := List.mem_map.mp member
  exact .action (.literal_apart (apart t named) rest) _

theorem TypeText.tells (t : TypeText) (barred : Bars .alpha rest) :
    Tells AttributeList.partItems AttributeList.attributeType t.print rest fun source pos =>
      t.items source pos := by
  refine Rule.Tells.effect ?_ _
  cases t with
  | keyword type named => exact (keyword_tells named barred).choiceLeft
  | notations gap names =>
    have other := keywords_reject (Text.utf8 "NOTATION") (by decide)
      (gap.bytes ++ names.print NameText.bytes ++ rest)
    refine (notations_tells gap names).choiceRight ?_
    rwa [TypeText.print, List.append_assoc, List.append_assoc, ← List.append_assoc gap.bytes]
  | enumeration tokens =>
    have other := keywords_reject (Text.utf8 "(") (by decide)
    refine (enumeration_tells tokens).choiceRight ?_
    simp only [TypeText.print, Choices.print, List.append_assoc]
    exact other _

theorem TypeText.bars (t : TypeText) (rest : Bytes) : Bars whitespace (t.print ++ rest) := by
  cases t with
  | keyword type named => cases type <;> exact bars_cons rfl _
  | notations | enumeration => exact bars_cons rfl _

end Types

section Defaults

variable {rest : Bytes}

theorem ValueText.bars (v : ValueText) {t : CharSet}
    (outside : ∀ q : Quote, t.contains q.byte = false)
    (rest : Bytes) : Bars t (v.print ++ rest) :=
  bars_cons (outside v.quote) _

theorem DefaultText.bars (d : DefaultText) (rest : Bytes) : Bars whitespace (d.print ++ rest) := by
  rcases d with _ | _ | ⟨_ | gap, v⟩
  · exact bars_cons rfl _
  · exact bars_cons rfl _
  · exact v.bars (by rintro (_ | _) <;> rfl) rest
  · exact bars_cons rfl _

theorem word_tells (text : String) (kind : DefaultKind) (rest : Bytes) :
    Tells AttributeList.partItems ((Rule.text text).action (.defaultDecl kind))
      (Text.utf8 text) rest
      fun _ _ => [.call (.defaultKind kind)] :=
  .leaf (.literal _ _) rfl rfl

theorem DefaultText.tells (d : DefaultText) (rest : Bytes) :
    Tells AttributeList.partItems AttributeList.defaultDecl d.print rest fun source pos =>
      d.items source pos := by
  rcases d with _ | _ | ⟨_ | gap, v⟩
  · exact ((word_tells "#REQUIRED" .required rest).choiceLeft.effect _).choiceLeft
  · have other : (Rule.text "#REQUIRED" : XmlRule).Rejects (Text.utf8 "#IMPLIED" ++ rest) :=
      .literal_apart (by decide) rest
    exact (((word_tells "#IMPLIED" .implied rest).choiceRight (other.action _)).effect _).choiceLeft
  · have apart : Bars (.ofBytes (Text.utf8 "#")) (v.print ++ rest) :=
      v.bars (by rintro (_ | _) <;> rfl) rest
    have words (bytes : Bytes) :
        (Rule.literal (0x23 :: bytes) : XmlRule).Rejects (v.print ++ rest) :=
      .literal_first apart bytes
    have just : Tells AttributeList.partItems (Rule.empty.action (.defaultDecl .justValue)) []
        (v.print ++ rest) fun _ _ => [.call (.defaultKind .justValue)] :=
      .leaf (.empty _) rfl rfl
    have fixed : (Rule.text "#FIXED" ++ spaces : XmlRule).Rejects ([] ++ (v.print ++ rest)) :=
      .seq (words _)
    refine Rule.Tells.choiceRight
      (.effect (.choice (.action (words _) _) (.action (words _) _)) _) ?_
    exact (just.choiceRight ((fixed.action _).effect _)).seq ((v.tells rest).effect _)
  · have required : (Rule.text "#REQUIRED" : XmlRule).Rejects
        (Text.utf8 "#FIXED" ++ (gap.bytes ++ v.print ++ rest)) :=
      .literal_apart (by decide) _
    have implied : (Rule.text "#IMPLIED" : XmlRule).Rejects
        (Text.utf8 "#FIXED" ++ (gap.bytes ++ v.print ++ rest)) :=
      .literal_apart (by decide) _
    have fixed : Tells AttributeList.partItems
        ((Rule.text "#FIXED" ++ spaces).action (.defaultDecl .fixed))
        (Text.utf8 "#FIXED" ++ gap.bytes) (v.print ++ rest)
        fun _ _ => [.call (.defaultKind .fixed)] :=
      .leaf (.seq (.literal _ _) (Space.reads gap
        (v.bars (by rintro (_ | _) <;> rfl) rest))) rfl rfl
    refine Rule.Tells.choiceRight (.effect (.choice (.action ?_ _) (.action ?_ _)) _) ?_
    · simpa [DefaultText.print] using required
    · simpa [DefaultText.print] using implied
    · refine ((fixed.effect _).choiceLeft.seq ((v.tells rest).effect _)).as rfl fun source pos => ?_
      simp [DefaultText.items, Nat.add_assoc]

end Defaults

section Definitions

variable {rest : Bytes}

theorem spaces_tells (space : Space) (barred : Bars whitespace rest) :
    Tells AttributeList.partItems spaces space.bytes rest fun _ _ => [] :=
  (Space.reads space barred).tells rfl

theorem attributeName_tells (name : NameText) (barred : Bars nameChar rest) :
    Tells AttributeList.partItems AttributeList.attributeName name.bytes rest fun source pos =>
      [.call (.attributeName (.ofText source pos name.bytes))] :=
  (((name.tells barred fun _ => ([] : List Unit)).spanned
    (fun span => [Item.call (Call.attributeName span)]) rfl fun _ _ => rfl).effect _).effect _

theorem DefinitionText.tells (d : DefinitionText) (rest : Bytes) :
    Tells AttributeList.partItems AttributeList.definition d.print rest fun source pos =>
      d.items source pos := by
  have named (rest : Bytes) := (spaces_tells d.beforeName (d.name.bars rfl _)).seq
    (attributeName_tells d.name (d.beforeType.bars rfl rest))
  have typed (rest : Bytes) := ((named _).seq (spaces_tells d.beforeType (d.type.bars _))).seq
    (d.type.tells (d.beforeDefault.bars rfl rest))
  have whole := ((typed _).seq (spaces_tells d.beforeDefault (d.default.bars rest))).seq
    (d.default.tells rest)
  refine (whole.effect .leaveScope).as rfl fun source pos => ?_
  simp [DefinitionText.items, Nat.add_assoc]

theorem DefinitionText.print_ne_nil (d : DefinitionText) : d.print ≠ [] := by
  simp [DefinitionText.print, d.beforeName.filled]

/-- What ends a declaration. -/
def Gap.closing (after : Gap) : Bytes := after.bytes ++ Text.utf8 ">"

theorem definition_rejects (after : Gap) (rest : Bytes) :
    AttributeList.definition.Rejects (after.closing ++ rest) := by
  have bracket : Bars whitespace (Text.utf8 ">" ++ rest) := bars_cons rfl rest
  have name : Name.token.Rejects (Text.utf8 ">" ++ rest) :=
    .action (.seq (.set (bars_cons rfl rest))) _
  have front : (spaces ++ AttributeList.attributeName).Rejects (after.closing ++ rest) := by
    rw [Gap.closing, List.append_assoc]
    exact after.rejects bracket (.effect (.effect (.action name _) _) _)
  exact .effect (.seq (.seq (.seq (.seq front)))) _

theorem definitions_bars (definitions : List DefinitionText) (after : Gap) (rest : Bytes) :
    Bars nameChar (definitions.flatMap DefinitionText.print ++ (after.closing ++ rest)) := by
  cases definitions with
  | nil =>
    rw [Gap.closing, List.append_assoc]
    exact after.bars rfl (bars_cons rfl rest)
  | cons d definitions =>
    simp only [List.flatMap_cons, DefinitionText.print, List.append_assoc]
    exact d.beforeName.bars rfl _

/-- The rule matches a declaration and tells it. -/
theorem DeclarationText.tells (d : DeclarationText) (rest : Bytes) :
    Tells AttributeList.items AttributeList.rule d.print rest fun source pos =>
      d.items source pos := by
  have opening (rest : Bytes) (barred : Bars whitespace rest) : Tells AttributeList.partItems
      (Rule.text "<!ATTLIST" ++ spaces) (Text.utf8 "<!ATTLIST" ++ d.beforeName.bytes) rest _ :=
    (Rule.Tells.literal _ _).seq (spaces_tells d.beforeName barred)
  have named := d.name.tells (definitions_bars d.definitions d.after rest) AttributeList.partItems
  have definitions := Rule.Tells.many d.definitions (fun part more => part.tells _)
    DefinitionText.print_ne_nil (definition_rejects d.after rest)
  have bracket : (char '>').Reads (Text.utf8 ">") rest := byte_reads _ _
  have closing : Tells AttributeList.partItems (blank ++ char '>') d.after.closing rest _ :=
    ((Gap.reads d.after (bars_cons rfl rest)).seq bracket).tells rfl
  have content := ((named.effect (.prepare (major
    "Did not find content for attribute declaration."))).seq definitions).seq
    (closing.effect .cancel)
  have begins : Bars whitespace (d.name.bytes ++ d.definitions.flatMap DefinitionText.print ++
      d.after.closing ++ rest) := by
    rw [List.append_assoc, List.append_assoc]
    exact d.name.bars rfl _
  refine Rule.Tells.action (((opening _ begins).effect _).seq content.choiceLeft) rfl
    fun source pos f shown clean => ?_
  have valid := isValid_node .attributeList rfl (.ofText source pos d.print) clean
  have items : AttributeList.items (.node .attributeList (.ofText source pos d.print) f) =
      d.items source pos := by
    simp only [AttributeList.items, Tree.action, Tree.children, Tree.span, shown, valid]
    simp [DeclarationText.items, AttributeList.partItems, Tree.action, Tree.span, Nat.add_assoc]
  exact items

end Definitions

end Backtrack.Xml
