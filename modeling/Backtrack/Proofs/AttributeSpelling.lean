import Backtrack.Proofs.QuotedText

/-! Every clean match of the rule of attribute-list declarations is over a declaration as it is
written. Each part is built back from what the rules of its parts spell. -/
namespace Backtrack.Xml

variable {δ : Type}

/-- The values of attributes are printed as values of their kind are. -/
theorem AttributeValue.spells : Spells rule ValueText.print :=
  grammar.rule_spells.map (fun v => ⟨v.quote, v.content.first, v.content.others⟩) fun _ => rfl

namespace EnumeratedType

variable {text : δ → Bytes} {one : XmlRule}

theorem others_spells (h : Spells one text) :
    Spells (.many (delimiter ++ one)) fun others : List (Gap × Gap × δ) =>
      others.flatMap (Choices.printOther text) := by
  have bar : Spells delimiter fun gaps : Gap × Gap =>
      gaps.1.bytes ++ Text.utf8 "|" ++ gaps.2.bytes :=
    (((blank_spells.seq (Rule.Spells.byte _)).seq blank_spells).map
      (fun parts => (parts.1.1, parts.2)) fun _ => rfl).effect _
  have other : Spells (delimiter ++ one) (Choices.printOther text) :=
    (bar.seq h).map (fun parts => (parts.1.1, parts.1.2, parts.2)) fun _ => rfl
  exact other.many

theorem close_spells : Spells close fun gap : Gap => gap.bytes ++ Text.utf8 ")" :=
  ((blank_spells.seq (Rule.Spells.byte _)).map (·.1) fun _ => rfl).effect _

/-- A list of alternatives behind what stands in front of its parenthesis. -/
theorem choices_spells {ε : Type} {opening : XmlRule} (front : ε → Bytes)
    (opens : Spells opening fun parts : ε × Gap =>
      front parts.1 ++ (Text.utf8 "(" ++ parts.2.bytes)) (h : Spells one text) :
    Spells (opening ++ one ++ .many (delimiter ++ one) ++ close) fun parts : ε × Choices δ =>
      front parts.1 ++ parts.2.print text :=
  (((opens.seq h).seq (others_spells h)).seq close_spells).map
    (fun parts => (parts.1.1.1.1, ⟨parts.1.1.1.2, parts.1.1.2, parts.1.2, parts.2⟩))
    fun _ => by simp [Choices.print]

theorem notations_spells : Spells notations TypeText.print := by
  have opening : Spells ((Rule.text "NOTATION").push
      (major "Did not find starting parenthesis for notation.") ++
      (blank ++ char '(' ++ blank).prepare (major "Did not find content for notation."))
      fun parts : Gap × Gap =>
        Text.utf8 "NOTATION" ++ parts.1.bytes ++ (Text.utf8 "(" ++ parts.2.bytes) :=
    (((Rule.Spells.literal _).effect _).seq
      (((blank_spells.seq (Rule.Spells.byte _)).seq blank_spells).effect _)).map
      (fun parts => (parts.2.1.1, parts.2.2)) fun _ => by simp; rfl
  exact (choices_spells (fun gap : Gap => Text.utf8 "NOTATION" ++ gap.bytes) opening
    ((name_spells.action _).effect _)).map (fun parts => .notations parts.1 parts.2) fun _ => rfl

theorem enumeration_spells : Spells enumeration TypeText.print := by
  have opening : Spells ((char '(' ++ blank).push (major "Did not find content for enumeration."))
      fun parts : Unit × Gap => [] ++ (Text.utf8 "(" ++ parts.2.bytes) :=
    ((Rule.Spells.byte _).seq blank_spells).effect _
  exact (choices_spells (fun _ => []) opening (((word_spells _).action _).effect _)).map
    (fun parts => .enumeration parts.2) fun _ => rfl

theorem spells : Spells rule TypeText.print :=
  ((notations_spells.choice enumeration_spells).choice
    (((skipped_spells _ _).effect _).effect _)).action _

end EnumeratedType

namespace AttributeList

theorem attributeType_spells : Spells attributeType TypeText.print := by
  refine ((Rule.Spells.firstOf ?_).choice EnumeratedType.spells).effect _
  intro rule member
  obtain ⟨type, named, rfl⟩ := List.mem_map.mp member
  exact ((Rule.Spells.literal _).action _).map (fun _ => .keyword type named) fun _ => rfl

theorem defaultDecl_spells : Spells defaultDecl DefaultText.print := by
  have required : Spells (Rule.text "#REQUIRED") DefaultText.print :=
    (Rule.Spells.literal _).map (fun _ => .required) fun _ => rfl
  have implied : Spells (Rule.text "#IMPLIED") DefaultText.print :=
    (Rule.Spells.literal _).map (fun _ => .implied) fun _ => rfl
  let front (gap : Option Space) : Bytes :=
    gap.elim [] fun gap => Text.utf8 "#FIXED" ++ gap.bytes
  have fixed : Spells (Rule.text "#FIXED" ++ spaces) front :=
    ((Rule.Spells.literal _).seq spaces_spells).map (fun parts => some parts.2) fun _ => rfl
  have justValue : Spells .empty front := Rule.Spells.empty.map (fun _ => none) fun _ => rfl
  refine (((required.action _).choice (implied.action _)).effect _).choice
    (((((fixed.action _).effect _).choice (justValue.action _)).seq
      (AttributeValue.spells.effect _)).map (fun parts => .value parts.1 parts.2) ?_)
  rintro ⟨_ | gap, v⟩ <;> rfl

theorem definition_spells : Spells definition DefinitionText.print :=
  ((((((spaces_spells.seq (((name_spells.action _).effect _).effect _)).seq spaces_spells).seq
    attributeType_spells).seq spaces_spells).seq defaultDecl_spells).map
    (fun ⟨⟨⟨⟨⟨beforeName, name⟩, beforeType⟩, type⟩, beforeDefault⟩, default⟩ =>
      (⟨beforeName, name, beforeType, type, beforeDefault, default⟩ : DefinitionText))
    fun _ => rfl).effect _

/-- A match that skips nothing is over a declaration. -/
theorem spells : Spells rule DeclarationText.print := by
  have opening : Spells (Rule.text "<!ATTLIST" ++ spaces) fun gap : Space =>
      Text.utf8 "<!ATTLIST" ++ gap.bytes :=
    ((Rule.Spells.literal _).seq spaces_spells).map (·.2) fun _ => rfl
  have closing : Spells (blank ++ char '>') fun gap : Gap => gap.bytes ++ Text.utf8 ">" :=
    (blank_spells.seq (Rule.Spells.byte _)).map (·.1) fun _ => rfl
  have content := ((name_spells.effect (.prepare (major
    "Did not find content for attribute declaration."))).seq definition_spells.many).seq
    (closing.effect .cancel)
  exact (((opening.effect _).seq (content.choice (skipped_spells _ _))).map
    (fun ⟨beforeName, ⟨name, definitions⟩, after⟩ =>
      (⟨beforeName, name, definitions, after⟩ : DeclarationText)) fun _ => rfl).action _

end AttributeList
end Backtrack.Xml
