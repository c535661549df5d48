import Backtrack.Proofs.Inversion
import Backtrack.Proofs.QuoteMirror
import Backtrack.Proofs.Written

/-! Journals and calls in the mirror. The mirrored journal reads as the mirrored trees, and where
nothing was skipped they stand for the mirrored calls: the same calls over the same offsets, with
every flag for a single quote turned round. An encoding takes its flag from the quotes entered in
the journal inside it, so it matters that there is one. -/
namespace Backtrack

variable {α : Type} {source : Source} {stop pos next : Nat} {rule : Rule α} {f : List (Tree α)}

namespace Rule

/-- Every match of the rule enters an action of this kind at the top. -/
def enters (kind : α → Bool) : Rule α → Bool
  | nothing => true
  | seq a b => a.enters kind || b.enters kind
  | choice a b => a.enters kind && b.enters kind
  | difference a _ | many1 a | effect a _ => a.enters kind
  | action _ act => kind act
  | _ => false

/-- Whatever action the rule enters at the top, the rule under it is as `holds` says. -/
def underActions (holds : Rule α → α → Bool) : Rule α → Bool
  | seq a b | choice a b => a.underActions holds && b.underActions holds
  | difference a _ | optional a | many a | many1 a | effect a _ => a.underActions holds
  | action a act => holds a act
  | _ => true

end Rule

theorem Derives.entered {kind : α → Bool} (h : Derives source stop rule pos next f)
    (enters : rule.enters kind = true) : ∃ tree ∈ f, kind tree.action = true := by
  induction h with
  | @leaf rule _ _ found =>
    cases rule with
    | nothing => simp [Rule.leaf?] at found
    | empty | literal | set | endOfInput | skipTo => cases enters
    | _ => simp [Rule.leaf?] at found
  | seq _ _ ih₁ ih₂ =>
    rcases (Bool.or_eq_true _ _).mp enters with first | second
    · obtain ⟨tree, member, here⟩ := ih₁ first
      exact ⟨tree, List.mem_append_left _ member, here⟩
    · obtain ⟨tree, member, here⟩ := ih₂ second
      exact ⟨tree, List.mem_append_right _ member, here⟩
  | choiceLeft _ ih => exact ih (Bool.and_eq_true_iff.mp enters).1
  | choiceRight _ _ ih => exact ih (Bool.and_eq_true_iff.mp enters).2
  | difference _ _ _ ih | many1Empty _ ih | effect _ ih => exact ih enters
  | optional | optionalFail | manyFail | manyEmpty | manyNext => cases enters
  | many1Next _ _ _ ih _ =>
    obtain ⟨tree, member, here⟩ := ih enters
    exact ⟨tree, List.mem_append_left _ member, here⟩
  | action => exact ⟨_, List.mem_singleton_self _, enters⟩

/-- A tree at the top is derived from the rule under its action. -/
theorem Derives.under {holds : Rule α → α → Bool} (h : Derives source stop rule pos next f)
    (all : rule.underActions holds = true) : ∀ tree ∈ f, ∃ a pos next,
    holds a tree.action = true ∧ Derives source stop a pos next tree.children := by
  induction h with
  | leaf | optionalFail | manyFail => nofun
  | seq _ _ ih₁ ih₂ =>
    obtain ⟨first, second⟩ := Bool.and_eq_true_iff.mp all
    exact List.forall_mem_append.mpr ⟨ih₁ first, ih₂ second⟩
  | choiceLeft _ ih => exact ih (Bool.and_eq_true_iff.mp all).1
  | choiceRight _ _ ih => exact ih (Bool.and_eq_true_iff.mp all).2
  | difference _ _ _ ih | optional _ ih | manyEmpty _ ih | many1Empty _ ih | effect _ ih =>
    exact ih all
  | manyNext _ _ _ ih₁ ih₂ | many1Next _ _ _ ih₁ ih₂ =>
    exact List.forall_mem_append.mpr ⟨ih₁ all, ih₂ all⟩
  | action part => exact List.forall_mem_singleton.mpr ⟨_, _, _, all, part⟩

namespace Xml

def mirrorSource (source : Source) : Source := source.map mirrorByte

/-- The span of the same offsets. -/
def mirrorSpan (span : Span) : Span :=
  ⟨mirrorSource span.source, span.start, span.stop, span.start_le_stop,
    Nat.le_trans span.stop_le_size (Nat.le_of_eq (Array.size_map ..).symm)⟩

def mirrorTree : Tree Action → Tree Action
  | .node action span children => .node action.mirror (mirrorSpan span) (children.map mirrorTree)

/-- The call over the mirrored source, with its quote turned round. -/
def Call.mirror : Call → Call
  | name span => name (mirrorSpan span)
  | reference kind payload => reference kind (mirrorSpan payload)
  | comment content => comment (mirrorSpan content)
  | value span => value (mirrorSpan span)
  | attributeValueDone valid single span => attributeValueDone valid (!single) (mirrorSpan span)
  | attributeDone valid span => attributeDone valid (mirrorSpan span)
  | peReference span => peReference (mirrorSpan span)
  | entityValueDone valid single span => entityValueDone valid (!single) (mirrorSpan span)
  | notationName span => notationName (mirrorSpan span)
  | enumeration token => enumeration (mirrorSpan token)
  | enumeratedTypeDone valid span => enumeratedTypeDone valid (mirrorSpan span)
  | publicIdLiteral literal single => publicIdLiteral (mirrorSpan literal) (!single)
  | systemLiteral literal single => systemLiteral (mirrorSpan literal) (!single)
  | externalIdDone valid span => externalIdDone valid (mirrorSpan span)
  | encodingName span => encodingName (mirrorSpan span)
  | encodingDeclDone valid single span => encodingDeclDone valid (!single) (mirrorSpan span)
  | versionNumber single version => versionNumber (!single) (mirrorSpan version)
  | standalone yes single => standalone yes (!single)
  | declarationDone valid span => declarationDone valid (mirrorSpan span)
  | elementName span => elementName (mirrorSpan span)
  | attributeName span => attributeName (mirrorSpan span)
  | attributeType type => attributeType type
  | openEnumeratedType => openEnumeratedType
  | defaultKind kind => defaultKind kind
  | openAttributeValue => openAttributeValue
  | attributeListDone valid span => attributeListDone valid (mirrorSpan span)

theorem isSingle_other (q : Quote) : q.other.isSingle = !q.isSingle := by cases q <;> rfl

section Trees

mutual

theorem events_mirror : (tree : Tree Action) →
    (mirrorTree tree).events = tree.events.map (Event.turned Action.mirror)
  | .node action span children => by
    simp [mirrorTree, Tree.events, mirrorSpan, Event.turned, eventsOf_mirror children]

theorem eventsOf_mirror : (trees : List (Tree Action)) →
    Tree.eventsOf (trees.map mirrorTree) = (Tree.eventsOf trees).map (Event.turned Action.mirror)
  | [] => rfl
  | tree :: trees => by
    simp [Tree.eventsOf, events_mirror tree, eventsOf_mirror trees]

end

theorem nests_mirror {source : Source} {start stop : Nat} {f : List (Tree Action)}
    (h : Nests source start f stop) :
    Nests (mirrorSource source) start (f.map mirrorTree) stop := by
  induction h with
  | nil ordered => exact .nil ordered
  | @cons _ _ _ _ _ span before inSource _ _ ih₁ ih₂ =>
    subst inSource
    rw [List.map_cons, mirrorTree]
    exact .cons before rfl ih₁ ih₂

theorem isValid_mirror (tree : Tree Action) : isValid (mirrorTree tree) = isValid tree := by
  have same : Event.marks (· == Action.invalid) ∘ Event.turned Action.mirror =
      Event.marks (· == .invalid) := by
    funext event
    cases event with
    | placeholder => rfl
    | action act => cases act <;> rfl
  simp only [isValid, Tree.any_eq_countP, events_mirror, List.countP_map, same]

end Trees
/-- Views that mirror tree by tree mirror the list. -/
theorem flatMap_mirror {view : Tree Action → List Call} {trees : List (Tree Action)}
    (each : ∀ tree ∈ trees, view (mirrorTree tree) = (view tree).map Call.mirror) :
    (trees.map mirrorTree).flatMap view = (trees.flatMap view).map Call.mirror := by
  rw [List.flatMap_map, List.map_flatMap]
  exact List.flatMap_congr each

/-- The calls for an action around parts: those for the parts, and one more. -/
theorem closed_mirror {view : Tree Action → List Call} {trees : List (Tree Action)}
    (each : ∀ tree ∈ trees, view (mirrorTree tree) = (view tree).map Call.mirror)
    {last last' : Call} (closing : last' = last.mirror) :
    (trees.map mirrorTree).flatMap view ++ [last'] =
      (trees.flatMap view ++ [last]).map Call.mirror := by
  rw [flatMap_mirror each, closing, List.map_append]
  rfl

theorem AttributeValue.partCalls_mirror (tree : Tree Action) :
    partCalls (mirrorTree tree) = (partCalls tree).map Call.mirror := by
  obtain ⟨action, span, children⟩ := tree
  rw [mirrorTree]
  cases action <;> rfl

theorem AttributeValue.calls_mirror (tree : Tree Action) :
    calls (mirrorTree tree) = (calls tree).map Call.mirror := by
  have valid := isValid_mirror tree
  obtain ⟨action, span, children⟩ := tree
  rw [mirrorTree] at valid ⊢
  cases action with
  | attributeValue q =>
    refine closed_mirror (fun part _ => partCalls_mirror part) ?_
    rw [valid, isSingle_other]
    rfl
  | _ => rfl

theorem Attribute.partCalls_mirror (tree : Tree Action) :
    partCalls (mirrorTree tree) = (partCalls tree).map Call.mirror := by
  have value := AttributeValue.calls_mirror tree
  obtain ⟨action, span, children⟩ := tree
  rw [mirrorTree] at value ⊢
  cases action with
  | name => rfl
  | _ => exact value

theorem Attribute.calls_mirror (tree : Tree Action) :
    calls (mirrorTree tree) = (calls tree).map Call.mirror := by
  have valid := isValid_mirror tree
  obtain ⟨action, span, children⟩ := tree
  rw [mirrorTree] at valid ⊢
  cases action with
  | attr =>
    refine closed_mirror (fun part _ => partCalls_mirror part) ?_
    rw [valid]
    rfl
  | _ => rfl

theorem EntityValue.partCalls_mirror (tree : Tree Action) :
    partCalls (mirrorTree tree) = (partCalls tree).map Call.mirror := by
  obtain ⟨action, span, children⟩ := tree
  rw [mirrorTree]
  cases action <;> rfl

theorem EntityValue.calls_mirror (tree : Tree Action) :
    calls (mirrorTree tree) = (calls tree).map Call.mirror := by
  have valid := isValid_mirror tree
  obtain ⟨action, span, children⟩ := tree
  rw [mirrorTree] at valid ⊢
  cases action with
  | entityValue q =>
    refine closed_mirror (fun part _ => partCalls_mirror part) ?_
    rw [valid, isSingle_other]
    rfl
  | _ => rfl

theorem EnumeratedType.calls_mirror (tree : Tree Action) :
    calls (mirrorTree tree) = (calls tree).map Call.mirror := by
  have valid := isValid_mirror tree
  have parts (part : Tree Action) :
      partCalls (mirrorTree part) = (partCalls part).map Call.mirror := by
    obtain ⟨action, span, children⟩ := part
    rw [mirrorTree]
    cases action <;> rfl
  obtain ⟨action, span, children⟩ := tree
  rw [mirrorTree] at valid ⊢
  cases action with
  | enumeratedType =>
    refine closed_mirror (fun part _ => parts part) ?_
    rw [valid]
    rfl
  | _ => rfl

section Encoding

/-- There is a quote among these. -/
def Quoted (parts : List (Tree Action)) : Prop := ∃ part ∈ parts, ∃ q, part.action = .quote q

/-- The kind of the last quote, or this one. -/
def EncodingDecl.lastQuote (single : Bool) (part : Tree Action) : Bool :=
  match part.action with
  | .quote q => q.isSingle
  | _ => single

theorem EncodingDecl.lastQuote_mirror (single : Bool) (part : Tree Action) :
    lastQuote (!single) (mirrorTree part) = !lastQuote single part := by
  obtain ⟨action, span, children⟩ := part
  rw [mirrorTree]
  cases action with
  | quote q => exact isSingle_other q
  | _ => rfl

theorem EncodingDecl.foldl_mirror (single : Bool) (parts : List (Tree Action)) :
    (parts.map mirrorTree).foldl lastQuote (!single) = !parts.foldl lastQuote single := by
  induction parts generalizing single with
  | nil => rfl
  | cons part parts ih =>
    rw [List.map_cons, List.foldl_cons, List.foldl_cons, lastQuote_mirror, ih]

/-- Where there is a quote, it does not matter what is taken for its kind before. -/
theorem EncodingDecl.foldl_quoted {parts : List (Tree Action)} (quoted : Quoted parts)
    (single other : Bool) : parts.foldl lastQuote single = parts.foldl lastQuote other := by
  induction parts generalizing single other with
  | nil =>
    obtain ⟨_, member, -⟩ := quoted
    cases member
  | cons part parts ih =>
    rw [List.foldl_cons, List.foldl_cons]
    by_cases later : Quoted parts
    · exact ih later _ _
    · obtain ⟨found, member, q, here⟩ := quoted
      rcases List.mem_cons.mp member with rfl | behind
      · simp only [lastQuote, here]
      · exact absurd ⟨found, behind, q, here⟩ later

theorem EncodingDecl.singleQuoted_mirror {parts : List (Tree Action)} (quoted : Quoted parts) :
    singleQuoted (parts.map mirrorTree) = !singleQuoted parts := by
  have kinds (parts : List (Tree Action)) : singleQuoted parts = parts.foldl lastQuote false := rfl
  have image : (parts.map mirrorTree).foldl lastQuote true = !parts.foldl lastQuote false :=
    foldl_mirror false parts
  rw [kinds, kinds, ← image]
  refine foldl_quoted ?_ false true
  obtain ⟨part, member, q, here⟩ := quoted
  refine ⟨mirrorTree part, List.mem_map_of_mem member, q.other, ?_⟩
  obtain ⟨action, span, children⟩ := part
  rw [mirrorTree]
  exact congrArg Action.mirror here

/-- An encoding has its quote. -/
def Announced (tree : Tree Action) : Prop := tree.action = .encodingDecl → Quoted tree.children

theorem EncodingDecl.calls_mirror {tree : Tree Action} (announced : Announced tree) :
    calls (mirrorTree tree) = (calls tree).map Call.mirror := by
  have valid := isValid_mirror tree
  have parts (part : Tree Action) :
      partCalls (mirrorTree part) = (partCalls part).map Call.mirror := by
    obtain ⟨action, span, children⟩ := part
    rw [mirrorTree]
    cases action <;> rfl
  obtain ⟨action, span, children⟩ := tree
  rw [mirrorTree] at valid ⊢
  cases action with
  | encodingDecl =>
    refine closed_mirror (fun part _ => parts part) ?_
    rw [valid]
    exact congrArg (Call.encodingDeclDone _ · _) (singleQuoted_mirror (announced rfl))
  | _ => rfl

theorem Declaration.partCalls_mirror {tree : Tree Action} (announced : Announced tree) :
    partCalls (mirrorTree tree) = (partCalls tree).map Call.mirror := by
  have encoding := EncodingDecl.calls_mirror announced
  obtain ⟨action, span, children⟩ := tree
  rw [mirrorTree] at encoding ⊢
  cases action with
  | versionNumber q =>
    exact congrArg (fun single => [Call.versionNumber single _]) (isSingle_other q)
  | standalone yes q =>
    exact congrArg (fun single => [Call.standalone yes single]) (isSingle_other q)
  | _ => exact encoding

theorem Declaration.calls_mirror {tree : Tree Action}
    (announced : ∀ part ∈ tree.children, Announced part) :
    calls (mirrorTree tree) = (calls tree).map Call.mirror := by
  have valid := isValid_mirror tree
  obtain ⟨action, span, children⟩ := tree
  rw [mirrorTree] at valid ⊢
  cases action with
  | declaration =>
    refine closed_mirror (fun part member => partCalls_mirror (announced part member)) ?_
    rw [valid]
    rfl
  | _ => rfl

end Encoding

/-- The item whose calls are mirrored. -/
def mirrorItem : Item Call → Item Call
  | .call call => .call call.mirror
  | .block opening calls => .block opening.mirror (calls.map Call.mirror)

theorem AttributeList.partItems_mirror (tree : Tree Action) :
    partItems (mirrorTree tree) = (partItems tree).map mirrorItem := by
  have enumerated := EnumeratedType.calls_mirror tree
  have value := AttributeValue.calls_mirror tree
  obtain ⟨action, span, children⟩ := tree
  rw [mirrorTree] at enumerated value ⊢
  cases action with
  | enumeratedType =>
    exact congrArg (fun calls =>
      [Item.call (.attributeType .enumerated), .block .openEnumeratedType calls]) enumerated
  | attributeValue q => exact congrArg (fun calls => [Item.block .openAttributeValue calls]) value
  | _ => rfl

theorem AttributeList.items_mirror (tree : Tree Action) :
    items (mirrorTree tree) = (items tree).map mirrorItem := by
  have valid := isValid_mirror tree
  obtain ⟨action, span, children⟩ := tree
  rw [mirrorTree] at valid ⊢
  cases action with
  | attributeList =>
    change (children.map mirrorTree).flatMap partItems ++ _ =
      (children.flatMap partItems ++ _).map _
    rw [List.map_append, List.flatMap_map, List.map_flatMap, valid]
    congr 1
    exact List.flatMap_congr fun part _ => partItems_mirror part
  | _ => rfl

section Derived

variable {source : Source} {stop pos next : Nat} {f : List (Tree Action)}

theorem action_ne_invalid {tree : Tree Action} (valid : isValid tree = true) :
    tree.action ≠ .invalid := by
  obtain ⟨action, span, children⟩ := tree
  rintro ⟨⟩
  cases valid

theorem isValid_children {tree : Tree Action} (valid : isValid tree = true) :
    ∀ part ∈ tree.children, isValid part = true := by
  obtain ⟨action, span, children⟩ := tree
  have none : Tree.defects (· == .invalid) children = 0 := by
    have whole : Tree.defects (· == .invalid) [.node action span children] = 0 :=
      (Tree.all_valid_iff _).mp (by simpa [isValid] using valid)
    rw [Tree.defects_node] at whole
    omega
  exact List.all_eq_true.mp ((Tree.all_valid_iff children).mpr none)

/-- What an encoding holds begins with a quote, or is skipped. -/
def announces (a : XmlRule) (act : Action) : Bool :=
  act != .encodingDecl || a.enters fun part => part == .invalid ||
    part == .quote .single || part == .quote .double

theorem announced_of_derives {rule : XmlRule} (derives : Derives source stop rule pos next f)
    (under : rule.underActions announces = true) (valid : ∀ tree ∈ f, isValid tree = true) :
    ∀ tree ∈ f, Announced tree := by
  intro tree member named
  obtain ⟨a, pos, next, holds, inner⟩ := derives.under under tree member
  rw [announces, named] at holds
  obtain ⟨part, among, kind⟩ := inner.entered (by simpa using holds)
  have sound := action_ne_invalid (isValid_children (valid tree member) part among)
  refine ⟨part, among, ?_⟩
  simp only [Bool.or_eq_true, beq_iff_eq, sound, false_or] at kind
  rcases kind with single | double
  · exact ⟨_, single⟩
  · exact ⟨_, double⟩

theorem Construct.items_mirror {construct : Construct} (quotable : construct ∈ quotable)
    (derives : Derives source stop construct.rule pos next f)
    (valid : ∀ tree ∈ f, isValid tree = true) :
    (f.map mirrorTree).flatMap construct.items = (f.flatMap construct.items).map mirrorItem := by
  have plain {calls : Tree Action → List Call} {tree : Tree Action}
      (same : calls (mirrorTree tree) = (calls tree).map Call.mirror) :
      (calls (mirrorTree tree)).map Item.call = ((calls tree).map Item.call).map mirrorItem := by
    rw [same, List.map_map, List.map_map]
    rfl
  rw [List.flatMap_map, List.map_flatMap]
  refine List.flatMap_congr fun tree member => ?_
  simp only [Construct.quotable, List.mem_cons, List.not_mem_nil, or_false] at quotable
  rcases quotable with rfl | rfl | rfl | rfl | rfl | rfl
  · exact plain (AttributeValue.calls_mirror tree)
  · exact plain (Attribute.calls_mirror tree)
  · exact plain (EntityValue.calls_mirror tree)
  · exact plain (EncodingDecl.calls_mirror (announced_of_derives derives rfl valid tree member))
  · have declared : Declaration.rule.underActions (fun a _ => a.underActions announces) = true :=
      rfl
    obtain ⟨a, pos, next, holds, inner⟩ := derives.under declared tree member
    exact plain (Declaration.calls_mirror
      (announced_of_derives inner holds (isValid_children (valid tree member))))
  · exact AttributeList.items_mirror tree

theorem mirrorItem_calls (items : List (Item Call)) :
    (items.map mirrorItem).flatMap Item.calls = (items.flatMap Item.calls).map Call.mirror := by
  rw [List.flatMap_map, List.map_flatMap]
  refine List.flatMap_congr fun item _ => ?_
  cases item with
  | call call => rfl
  | block opening calls => rfl

end Derived
end Xml
end Backtrack
