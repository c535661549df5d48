import Backtrack.Proofs.Alternatives
import Backtrack.Xml.Construct

/-! The grammars of quoted values in a mirror that shows each quote as the other. A rule that does
not tell the two quotes apart is its own mirror image; the rule for a value in one quote is that of
the value in the other. So the constructs that allow both quotes alike match the mirrored source as
they match the source, whichever quote their alternatives try first. -/
namespace Backtrack.Xml

/-- The byte in the mirror. -/
def mirrorByte (b : UInt8) : UInt8 := if b = 0x27 then 0x22 else if b = 0x22 then 0x27 else b

def Quote.other : Quote → Quote
  | .single => .double
  | .double => .single

/-- The action in the mirror. -/
def Action.mirror : Action → Action
  | .attributeValue q => .attributeValue q.other
  | .entityValue q => .entityValue q.other
  | .publicIdLiteral q => .publicIdLiteral q.other
  | .systemLiteral q => .systemLiteral q.other
  | .quote q => .quote q.other
  | .versionNumber q => .versionNumber q.other
  | .standalone yes q => .standalone yes q.other
  | action => action

theorem mirrorByte_involutive : Function.Involutive mirrorByte := fun b =>
  CharSet.every_byte (P := fun b => mirrorByte (mirrorByte b) = b) (by decide +kernel) b

/-- One class holds in the mirror what the other holds. -/
def MirrorSets (s s' : CharSet) : Prop := ∀ b, s'.contains (mirrorByte b) = s.contains b

instance (s s' : CharSet) : Decidable (MirrorSets s s') :=
  decidable_of_iff (∀ n : Fin 256, s'.contains (mirrorByte (.ofFin n)) = s.contains (.ofFin n))
    ⟨fun all => CharSet.every_byte all, fun all n => all (.ofFin n)⟩

/-- The rule does not tell the two quotes apart. -/
def impartial : XmlRule → Bool
  | .empty | .nothing | .endOfInput => true
  | .literal bytes => bytes.map mirrorByte == bytes
  | .set s | .skipTo s => s.contains 0x27 == s.contains 0x22
  | .seq a b | .choice a b => impartial a && impartial b
  | .difference _ _ => false
  | .optional a | .many a | .many1 a | .effect a _ => impartial a
  | .action a act => impartial a && act.mirror == act

theorem mirrorSets_self {s : CharSet} (same : s.contains 0x27 = s.contains 0x22) :
    MirrorSets s s := by
  intro b
  unfold mirrorByte
  split
  next single => rw [single, same]
  next =>
    split
    next double => rw [double, same]
    next => rfl

/-- A subject and its image in the mirror, each with a scribe. -/
structure Mirrored (subject subject' : Subject (List Notice)) : Prop where
  faces : subject.Faces subject'
  input : subject'.input = subject.input.map mirrorByte

/-- The second rule is the image of the first. -/
def Mirrors (subject subject' : Subject (List Notice)) (a a' : XmlRule) : Prop :=
  Tracks subject subject' Action.mirror .attempt a a'

namespace Mirrored

variable {subject subject' : Subject (List Notice)} (both : Mirrored subject subject')
include both

theorem set {s s' : CharSet} (sets : MirrorSets s s') :
    Mirrors subject subject' (.set s) (.set s') := by
  refine Tracks.leaf fun pos => ⟨_, rfl, ?_⟩
  rw [Rule.leaf?, both.input, List.getElem?_map]
  cases subject.input[pos]? with
  | none => rfl
  | some b => simp only [Option.map_some, Option.any_some, sets b]

theorem literal {bytes bytes' : Bytes} (same : bytes.map mirrorByte = bytes') :
    Mirrors subject subject' (.literal bytes) (.literal bytes') := by
  subst same
  refine Tracks.leaf fun pos => ⟨_, rfl, ?_⟩
  simp only [Rule.leaf?, both.input, ← List.map_drop, List.length_map,
    List.prefix_map_iff_of_injective mirrorByte_involutive.injective]

theorem skipTo {s s' : CharSet} (sets : MirrorSets s s') :
    Mirrors subject subject' (.skipTo s) (.skipTo s') := by
  have same : s'.contains ∘ mirrorByte = s.contains := funext sets
  refine Tracks.leaf fun pos => ⟨_, rfl, ?_⟩
  rw [Rule.leaf?, both.input, ← List.map_drop, List.findIdx?_map, same]

/-- An impartial rule is its own image. -/
theorem impartial {a : XmlRule} (even : Xml.impartial a = true) :
    Mirrors subject subject' a a := by
  induction a with
  | empty => exact Tracks.leaf fun pos => ⟨_, rfl, rfl⟩
  | nothing => exact Tracks.leaf fun pos => ⟨_, rfl, rfl⟩
  | endOfInput =>
    refine Tracks.leaf fun pos => ⟨_, rfl, ?_⟩
    rw [Rule.leaf?, both.input, List.length_map]
  | literal bytes => exact both.literal (eq_of_beq even)
  | set s => exact both.set (mirrorSets_self (eq_of_beq even))
  | skipTo s => exact both.skipTo (mirrorSets_self (eq_of_beq even))
  | seq a b iha ihb =>
    obtain ⟨first, second⟩ := Bool.and_eq_true_iff.mp even
    exact (iha first).seq both.faces (ihb second)
  | choice a b iha ihb =>
    obtain ⟨left, right⟩ := Bool.and_eq_true_iff.mp even
    exact (iha left).choice both.faces (ihb right)
  | difference => cases even
  | optional a ih => exact (ih even).optional
  | many a ih => exact (ih even).many both.faces
  | many1 a ih => exact (ih even).many1 both.faces
  | effect a e ih => exact (ih even).effect both.faces (.refl e)
  | action a act ih =>
    obtain ⟨part, same⟩ := Bool.and_eq_true_iff.mp even
    have acted := (ih part).action act
    rwa [eq_of_beq same] at acted

theorem mark (q : Quote) : Mirrors subject subject' (mark q) (mark q.other) :=
  both.set (by cases q <;> decide +kernel)

theorem skipToQuote (q : Quote) : Mirrors subject subject' (skipToQuote q) (skipToQuote q.other) :=
  both.skipTo (by cases q <;> decide +kernel)

theorem valueText (q : Quote) : Mirrors subject subject' (valueText q) (valueText q.other) := by
  have plain : MirrorSets (~~~CharSet.ofBytes [0x25, 0x26, q.byte])
      (~~~CharSet.ofBytes [0x25, 0x26, q.other.byte]) := by
    cases q <;> decide +kernel
  exact ((both.set plain).many1 both.faces).action .value

theorem attributeValue_quoted (q : Quote) :
    Mirrors subject subject' (AttributeValue.quoted q) (AttributeValue.quoted q.other) := by
  have part := (both.impartial (a := Reference.rule) rfl).choice both.faces (both.valueText q)
  have messages : (AttributeValue.unclosed q).level = (AttributeValue.unclosed q.other).level := by
    cases q <;> rfl
  have content := (both.mark q).overwritten both.faces part (by cases q <;> rfl)
    (AttributeValue.opened q) (AttributeValue.opened q.other) messages
  have whole := content.seq both.faces (both.mark q)
  exact (whole.effect both.faces .cancel).action (.attributeValue q)

theorem attributeValue : Mirrors subject subject' AttributeValue.rule AttributeValue.rule :=
  Tracks.firstOf both.faces
    (.swap both.faces (both.attributeValue_quoted .single) (both.attributeValue_quoted .double) rfl
      (.cons (both.impartial rfl) .nil))

theorem attr : Mirrors subject subject' Attribute.rule Attribute.rule := by
  refine Tracks.choice both.faces (Tracks.action (Tracks.effect both.faces ?_ .cancel) Action.attr)
    (both.impartial rfl)
  exact Tracks.seq both.faces (both.impartial rfl) both.attributeValue

theorem entityValue_quoted (q : Quote) :
    Mirrors subject subject' (EntityValue.quoted q) (EntityValue.quoted q.other) := by
  have part := (both.impartial (a := Reference.rule ||| PeReference.rule) rfl).choice both.faces
    (both.valueText q)
  have messages : (EntityValue.unclosed q).level = (EntityValue.unclosed q.other).level := by
    cases q <;> rfl
  have content := (both.mark q).overwritten both.faces part (by cases q <;> rfl)
    (EntityValue.opened q) (EntityValue.opened q.other) messages
  have whole := content.seq both.faces (both.mark q)
  exact (whole.effect both.faces .cancel).action (.entityValue q)

theorem entityValue : Mirrors subject subject' EntityValue.rule EntityValue.rule :=
  Tracks.firstOf both.faces
    (.swap both.faces (both.entityValue_quoted .single) (both.entityValue_quoted .double) rfl
      (.cons (both.impartial rfl) .nil))

theorem encoding_quoted (q : Quote) :
    Mirrors subject subject' (EncodingDecl.quoted q) (EncodingDecl.quoted q.other) := by
  have start := (both.mark q).action (.quote q)
  have closed := (both.mark q).effect both.faces .cancel
  have skip := ((both.skipToQuote q).action .invalid).effect both.faces .pop
  refine Tracks.seq both.faces (start.effect both.faces (.prepare rfl)) ?_
  exact Tracks.choice both.faces (Tracks.seq both.faces (both.impartial rfl) closed)
    (skip.effect both.faces (.sendNow rfl))

theorem encoding : Mirrors subject subject' EncodingDecl.rule EncodingDecl.rule := by
  refine Tracks.action (Tracks.seq both.faces (both.impartial rfl) ?_) .encodingDecl
  refine Tracks.choice both.faces (Tracks.seq both.faces (both.impartial rfl) ?_)
    (both.impartial rfl)
  exact Tracks.firstOf both.faces
    (.swap both.faces (both.encoding_quoted .double) (both.encoding_quoted .single) rfl .nil)

theorem versionQuoted (q : Quote) :
    Mirrors subject subject' (Declaration.versionQuoted q) (Declaration.versionQuoted q.other) := by
  have closed := (both.mark q).effect both.faces .cancel
  have skip := ((both.skipToQuote q).action .invalid).effect both.faces .pop
  refine Tracks.seq both.faces ((both.mark q).effect both.faces (.push rfl)) ?_
  refine Tracks.choice both.faces (Tracks.seq both.faces ?_ closed)
    (skip.effect both.faces (.sendNow rfl))
  exact (Tracks.action (both.impartial rfl) (.versionNumber q)).effect both.faces (.prepare rfl)

theorem version : Mirrors subject subject' Declaration.version Declaration.version := by
  refine Tracks.seq both.faces (both.impartial rfl) ?_
  exact Tracks.firstOf both.faces
    (.swap both.faces (both.versionQuoted .single) (both.versionQuoted .double) rfl .nil)

theorem standaloneValue (yes : Bool) (q : Quote) :
    Mirrors subject subject' (Declaration.standaloneValue yes q)
      (Declaration.standaloneValue yes q.other) :=
  (both.literal (by cases yes <;> cases q <;> rfl)).action (.standalone yes q)

theorem standalone : Mirrors subject subject' Declaration.standalone Declaration.standalone := by
  refine Tracks.seq both.faces (both.impartial rfl) ?_
  exact Tracks.firstOf both.faces
    (.swap both.faces (both.standaloneValue true .single) (both.standaloneValue true .double) rfl
      (.swap both.faces (both.standaloneValue false .single) (both.standaloneValue false .double)
        rfl .nil))

theorem declaration : Mirrors subject subject' Declaration.rule Declaration.rule := by
  refine Tracks.action (Tracks.seq both.faces (both.impartial rfl) ?_) .declaration
  refine Tracks.choice both.faces ?_ (both.impartial rfl)
  have encoding := Tracks.seq both.faces (both.impartial (a := spaces) rfl) both.encoding
  have quoted := (both.version.seq both.faces encoding.optional).seq both.faces
    both.standalone.optional
  exact (quoted.seq both.faces (both.impartial rfl)).seq both.faces (both.impartial rfl)

theorem defaultDecl :
    Mirrors subject subject' AttributeList.defaultDecl AttributeList.defaultDecl := by
  refine Tracks.choice both.faces (both.impartial rfl) ?_
  exact Tracks.seq both.faces (both.impartial rfl)
    (both.attributeValue.effect both.faces (.refl _))

theorem attributeList : Mirrors subject subject' AttributeList.rule AttributeList.rule := by
  refine Tracks.action (Tracks.seq both.faces (both.impartial rfl) ?_) .attributeList
  refine Tracks.choice both.faces ?_ (both.impartial rfl)
  have definition : Mirrors subject subject' AttributeList.definition AttributeList.definition :=
    (Tracks.seq both.faces (both.impartial rfl) both.defaultDecl).effect both.faces .leaveScope
  exact (Tracks.seq both.faces (both.impartial rfl) (definition.many both.faces)).seq both.faces
    (both.impartial rfl)

end Mirrored

/-- The constructs with quoted values that may stand in either quote. -/
def Construct.quotable : List Construct :=
  [attributeValue, attr, entityValue, encoding, declaration, attributeList]

theorem Mirrored.construct {subject subject' : Subject (List Notice)}
    (both : Mirrored subject subject') {construct : Construct}
    (quotable : construct ∈ Construct.quotable) :
    Mirrors subject subject' construct.rule construct.rule := by
  simp only [Construct.quotable, List.mem_cons, List.not_mem_nil, or_false] at quotable
  rcases quotable with rfl | rfl | rfl | rfl | rfl | rfl
  · exact both.attributeValue
  · exact both.attr
  · exact both.entityValue
  · exact both.encoding
  · exact both.declaration
  · exact both.attributeList

end Backtrack.Xml
