import Backtrack.Proofs.Inversion
import Backtrack.Proofs.Written

/-! Closing calls. A construct that wraps its journal in an action of its own ends its calls with one
that tells whether it was valid, and its span. Three of these constructs can match by an alternative
of their root that skips everything and wraps nothing; then there is no call at all. Without a match
nothing is replayed. -/
namespace Backtrack

variable {σ : Type}

namespace Xml

namespace Construct

/-- The constructs that end in a closing call. -/
def closed : List Construct :=
  [attributeValue, attr, entityValue, enumeratedType, externalId, encoding, declaration,
    attributeList]

/-- Whether the construct was valid and where it stands, as its closing call tells. -/
def closing? : Construct → Call → Option (Bool × Span)
  | attributeValue, .attributeValueDone valid _ span
  | attr, .attributeDone valid span
  | entityValue, .entityValueDone valid _ span
  | enumeratedType, .enumeratedTypeDone valid span
  | externalId, .externalIdDone valid span
  | encoding, .encodingDeclDone valid _ span
  | declaration, .declarationDone valid span
  | attributeList, .attributeListDone valid span => some (valid, span)
  | _, _ => none

/-- The action wraps the whole construct. -/
def wraps : Construct → Action → Bool
  | attributeValue, .attributeValue _ | attr, .attr | entityValue, .entityValue _
  | enumeratedType, .enumeratedType | externalId, .externalId | encoding, .encodingDecl
  | declaration, .declaration | attributeList, .attributeList => true
  | _, _ => false

/-- The calls close the construct: the last one and no other is its closing call, and tells this
validity and the span up to `stop`. -/
def Closes (construct : Construct) (source : Source) (valid : Bool) (stop : Nat)
    (calls : List Call) : Prop :=
  ∃ before done span, calls = before ++ [done] ∧ construct.closing? done = some (valid, span) ∧
    (∀ call ∈ before, construct.closing? call = none) ∧
    span.source = source ∧ span.start = 0 ∧ span.stop = stop

/-- The construct is matched by the second alternative of its root. -/
def Skipped (construct : Construct) (source : Source) : Prop :=
  ∃ proper skip stop, construct.rule = .choice proper skip ∧
    Recognizes source.toList proper 0 none ∧ Recognizes source.toList skip 0 (some stop)

section Parts

variable (construct : Construct) (tree : Tree Action)

theorem opens_of_parts {parts : Tree Action → List Call} {trees : List (Tree Action)}
    (opens : ∀ part, ∀ call ∈ parts part, construct.closing? call = none) :
    ∀ call ∈ trees.flatMap parts, construct.closing? call = none := by
  intro call member
  obtain ⟨part, -, among⟩ := List.mem_flatMap.mp member
  exact opens part call among

theorem opens_of_whole {parts : Tree Action → List Call} {trees : List (Tree Action)} {done : Call}
    (opens : ∀ part, ∀ call ∈ parts part, construct.closing? call = none)
    (other : construct.closing? done = none) :
    ∀ call ∈ trees.flatMap parts ++ [done], construct.closing? call = none :=
  List.forall_mem_append.mpr ⟨opens_of_parts construct opens, List.forall_mem_singleton.mpr other⟩

theorem reference_opens : ∀ call ∈ Reference.calls tree, construct.closing? call = none := by
  unfold Reference.calls
  split <;> simp [closing?]

theorem value_opens : ∀ call ∈ AttributeValue.partCalls tree, construct.closing? call = none := by
  unfold AttributeValue.partCalls
  split
  · simp [closing?]
  · exact reference_opens construct tree

theorem entity_opens : ∀ call ∈ EntityValue.partCalls tree, construct.closing? call = none := by
  unfold EntityValue.partCalls PeReference.calls
  split
  · simp [closing?]
  · split <;> simp [closing?]
  · exact reference_opens construct tree

theorem token_opens : ∀ call ∈ EnumeratedType.partCalls tree, construct.closing? call = none := by
  unfold EnumeratedType.partCalls
  split <;> simp [closing?]

theorem literal_opens : ∀ call ∈ ExternalId.partCalls tree, construct.closing? call = none := by
  unfold ExternalId.partCalls PublicId.calls
  split
  · simp [closing?]
  · split <;> simp [closing?]

theorem encodingName_opens :
    ∀ call ∈ EncodingDecl.partCalls tree, construct.closing? call = none := by
  unfold EncodingDecl.partCalls
  split <;> simp [closing?]

theorem value_opens_outside (outside : construct ≠ attributeValue) :
    ∀ call ∈ AttributeValue.calls tree, construct.closing? call = none := by
  unfold AttributeValue.calls
  split
  · apply opens_of_whole construct (value_opens construct)
    cases construct <;> first | rfl | contradiction
  · simp

theorem enumeratedType_opens_outside (outside : construct ≠ enumeratedType) :
    ∀ call ∈ EnumeratedType.calls tree, construct.closing? call = none := by
  unfold EnumeratedType.calls
  split
  · apply opens_of_whole construct (token_opens construct)
    cases construct <;> first | rfl | contradiction
  · simp

theorem encoding_opens_outside (outside : construct ≠ encoding) :
    ∀ call ∈ EncodingDecl.calls tree, construct.closing? call = none := by
  unfold EncodingDecl.calls
  split
  · apply opens_of_whole construct (encodingName_opens construct)
    cases construct <;> first | rfl | contradiction
  · simp

theorem attribute_opens : ∀ call ∈ Attribute.partCalls tree, attr.closing? call = none := by
  unfold Attribute.partCalls Name.calls
  split
  · split <;> simp [closing?]
  · exact value_opens_outside attr tree (by simp)

theorem declaration_opens :
    ∀ call ∈ Declaration.partCalls tree, declaration.closing? call = none := by
  unfold Declaration.partCalls
  split
  · simp [closing?]
  · simp [closing?]
  · exact encoding_opens_outside declaration tree (by simp)

theorem definition_opens :
    ∀ call ∈ (AttributeList.partItems tree).flatMap Item.calls,
      attributeList.closing? call = none := by
  unfold AttributeList.partItems
  split
  · simp [Item.calls, closing?]
  · simp [Item.calls, closing?]
  · simp [Item.calls, closing?]
  · simpa [Item.calls, closing?] using enumeratedType_opens_outside attributeList tree (by simp)
  · simp [Item.calls, closing?]
  · simpa [Item.calls, closing?] using value_opens_outside attributeList tree (by simp)
  · simp

end Parts

theorem calls_of_plain {stream : List Call} : (stream.map Item.call).flatMap Item.calls = stream := by
  simp [List.flatMap_map, Item.calls]

/-- A tree that wraps the construct is replayed with the closing call at the end. -/
theorem closes_tree {construct : Construct} {act : Action} (wraps : construct.wraps act = true)
    {source : Source} {span : Span} (inSource : span.source = source) (first : span.start = 0)
    (children : List (Tree Action)) :
    construct.Closes source (isValid (.node act span children)) span.stop
      ((construct.items (.node act span children)).flatMap Item.calls) := by
  have plain {parts : Tree Action → List Call} {done : Call}
      (told : construct.closing? done = some (isValid (.node act span children), span))
      (opens : ∀ part, ∀ call ∈ parts part, construct.closing? call = none) :
      construct.Closes source (isValid (.node act span children)) span.stop
        (((children.flatMap parts ++ [done]).map Item.call).flatMap Item.calls) := by
    rw [calls_of_plain]
    exact ⟨_, done, span, rfl, told, opens_of_parts construct opens, inSource, first, rfl⟩
  cases construct <;> cases act <;> cases wraps
  case attributeValue.attributeValue.refl => exact plain rfl (value_opens _)
  case attr.attr.refl => exact plain rfl attribute_opens
  case entityValue.entityValue.refl => exact plain rfl (entity_opens _)
  case enumeratedType.enumeratedType.refl => exact plain rfl (token_opens _)
  case externalId.externalId.refl => exact plain rfl (literal_opens _)
  case encoding.encodingDecl.refl => exact plain rfl (encodingName_opens _)
  case declaration.declaration.refl => exact plain rfl declaration_opens
  case attributeList.attributeList.refl =>
    change Closes _ _ _ _ ((children.flatMap AttributeList.partItems ++ [_]).flatMap Item.calls)
    rw [List.flatMap_append, List.flatMap_assoc]
    exact ⟨_, _, span, rfl, rfl, opens_of_parts _ definition_opens, inSource, first, rfl⟩

section Shapes

variable {construct : Construct} {source : Source} {stop : Nat} {f : List (Tree Action)}

/-- One tree up to `stop` wraps the construct. -/
def Wrapped (construct : Construct) (source : Source) (stop : Nat) (f : List (Tree Action)) : Prop :=
  ∃ act span children, construct.wraps act = true ∧ f = [.node act span children] ∧
    span.source = source ∧ span.start = 0 ∧ span.stop = stop

theorem wrapped_of_action {act : Action} (wraps : construct.wraps act = true) {rule : XmlRule}
    (derives : Derives source source.size (.action rule act) 0 stop f) :
    construct.Wrapped source stop f := by
  obtain ⟨span, children, -, inSource, first, last, rfl⟩ := Derives.action_iff.mp derives
  exact ⟨act, span, children, wraps, rfl, inSource, first, last⟩

/-- A match of a root with a skipping alternative is by the alternatives before it, or by that one,
and then its tree is invalid and nothing is replayed. -/
theorem wrapped_or_skipped {proper skip : XmlRule} (root : construct.rule = .choice proper skip)
    (wrapped : Derives source source.size proper 0 stop f → construct.Wrapped source stop f)
    (invalid : Derives source source.size skip 0 stop f →
      ∃ span children, f = [.node .invalid span children])
    (silent : ∀ span children, construct.items (.node .invalid span children) = [])
    (derives : Derives source source.size construct.rule 0 stop f) :
    (¬ construct.Skipped source ∧ construct.Wrapped source stop f) ∨
    (construct.Skipped source ∧ f.all isValid = false ∧ f.flatMap construct.items = []) := by
  rw [root] at derives
  rcases Derives.choice_iff.mp derives with left | ⟨failed, right⟩
  · refine .inl ⟨?_, wrapped left⟩
    rintro ⟨proper', skip', _, root', failed, -⟩
    obtain ⟨rfl, rfl⟩ := Rule.choice.inj (root.symm.trans root')
    rw [← inputUpTo_size] at failed
    exact left.not_fails failed
  · obtain ⟨span, children, rfl⟩ := invalid right
    have matched := right.recognizes
    rw [inputUpTo_size] at failed matched
    refine .inr ⟨⟨proper, skip, stop, root, failed, matched⟩, ?_, ?_⟩
    · simp [isValid, Tree.any]
    · simp [silent]

/-- A match is one tree that wraps the construct, or the construct is skipped. -/
theorem derives_wrapped (closed : construct ∈ closed)
    (derives : Derives source source.size construct.rule 0 stop f) :
    (¬ construct.Skipped source ∧ construct.Wrapped source stop f) ∨
    (construct.Skipped source ∧ f.all isValid = false ∧ f.flatMap construct.items = []) := by
  have rooted {rule : XmlRule} {act : Action} (root : construct.rule = .action rule act)
      (wraps : construct.wraps act = true) :
      ¬ construct.Skipped source ∧ construct.Wrapped source stop f := by
    refine ⟨?_, wrapped_of_action wraps (root ▸ derives)⟩
    rintro ⟨proper, skip, _, root', -⟩
    exact nomatch root.symm.trans root'
  have invalid {rule : XmlRule} {e e' : Effect}
      (right : Derives source source.size (.effect (.effect (.action rule .invalid) e) e') 0 stop f) :
      ∃ span children, f = [.node .invalid span children] := by
    obtain ⟨span, children, -, -, -, -, rfl⟩ :=
      Derives.action_iff.mp (Derives.effect_iff.mp (Derives.effect_iff.mp right))
    exact ⟨span, children, rfl⟩
  simp only [Construct.closed, List.mem_cons, List.not_mem_nil, or_false] at closed
  rcases closed with rfl | rfl | rfl | rfl | rfl | rfl | rfl | rfl
  · refine wrapped_or_skipped rfl (fun left => ?_) invalid (fun _ _ => rfl) derives
    rcases Derives.choice_iff.mp left with single | ⟨-, double⟩
    · exact wrapped_of_action rfl single
    · exact wrapped_of_action rfl double
  · exact wrapped_or_skipped rfl (wrapped_of_action rfl) invalid (fun _ _ => rfl) derives
  · refine wrapped_or_skipped rfl (fun left => ?_) invalid (fun _ _ => rfl) derives
    rcases Derives.choice_iff.mp left with single | ⟨-, double⟩
    · exact wrapped_of_action rfl single
    · exact wrapped_of_action rfl double
  all_goals exact .inl (rooted rfl rfl)

/-- Only a value or an attribute can be skipped. -/
theorem skipped_mem (closed : construct ∈ closed) (skipped : construct.Skipped source) :
    construct ∈ [attributeValue, attr, entityValue] := by
  obtain ⟨proper, skip, _, root, -⟩ := skipped
  revert closed root
  cases construct <;> simp [Construct.closed, Construct.rule] <;> nofun

end Shapes

end Construct

theorem Client.Accepting.calm {client : Client σ} (accepting : client.Accepting) (p : Parser)
    (world : σ) (call : Call) (reason : String) : (client.receiver p world call).2 ≠ .crash reason := by
  rw [accepting]
  nofun

/-- A receiver that takes every call is given the calls for the derivation that is judged, and none
without a match. -/
theorem Parser.parse_given (p : Parser) (construct : Construct) (source : Source) (world : σ)
    (idle : p.driver.busy = false) (accepted : Driver.refuse? source.size 0 source.size = none)
    {client : Client σ} (accepting : client.Accepting) {outcome : Outcome}
    (returned : (p.parse construct source client.logged { world }).outcome = .ok outcome) :
    let calls := (p.parse construct source client.logged { world }).world.calls
    (∃ next forest, Derives source source.size construct.rule 0 next forest ∧
      outcome = .classify (forest.all isValid) (next == source.size) ∧
      calls.map (·.given) = (forest.flatMap construct.items).flatMap Item.calls) ∨
    ((outcome = .notParsed ∨ outcome = .aborted) ∧ calls = []) := by
  intro calls
  let shown (driver : Driver) : Parser := { p with driver }
  let host := client.logged.besideFlags shown construct
  have balanced : construct.rule.Balanced := (Shipped.construct construct).balanced
  -- the sink writes to the log of messages alone
  have keeps (state : (Construct → Bool) × Log Parser Call σ) (notice : Notice)
      (uncalled : state.2.calls = []) :
      (host.sink p.driver.inside state notice).1.2.calls = [] := uncalled
  have replays (forest : List (Tree Action)) (state : (Construct → Bool) × Log Parser Call σ)
      (uncalled : state.2.calls = []) : ∃ after,
        host.replay p.driver.inside forest state = .ok (forest.all isValid) after ∧
        after.2.calls.map (·.given) = (forest.flatMap construct.items).flatMap Item.calls := by
    obtain ⟨part, world', replayed, delivered, genuine⟩ :=
      replay_logged construct accepting.calm (shown p.driver.inside) forest state.1 state.2
    refine ⟨_, replayed, ?_⟩
    rw [uncalled]
    exact delivered.all_given fun e member => (genuine e member).not_refused accepting
  rw [parse_eq] at returned
  have ended := Driver.parse_replayed balanced idle accepted keeps rfl replays returned
  rwa [Nat.min_self] at ended

end Xml

/-- Closing calls. A parser of a construct that ends in a closing call, over a source that is not
empty, with a receiver that takes every call, comes to one of five ends. Where it finds a beginning
valid, the closing call is made once, as the last call: it says so, and its span is the match, which
is all of the source just when all of it is valid. Where it finds it not valid, the closing call is
made once, as the last call, and says so, unless the root rule has fallen back on its skipping
alternative, as only a value or an attribute can: then no call is made. Where nothing is parsed or
the parse is aborted, no call is made. -/
theorem parse_closes (p : Xml.Parser) (construct : Xml.Construct) (source : Source)
    (client : Xml.Client σ) (world : σ) (closed : construct ∈ Xml.Construct.closed)
    (idle : p.driver.busy = false) (filled : source.toList ≠ []) (accepting : client.Accepting) :
    let run := p.parse construct source client.logged { world }
    let calls := run.world.calls.map (·.given)
    p.parse construct source client world = ⟨run.parser, run.world.world, run.outcome⟩ ∧
    (client.Calm → ∃ outcome, run.outcome = .ok outcome) ∧
    (construct.Skipped source → construct ∈ [.attributeValue, .attr, .entityValue]) ∧
    ∀ outcome, run.outcome = .ok outcome →
      (outcome.isGood = true ∧ (∃ next,
          Recognizes source.toList construct.rule 0 (some next) ∧
          construct.Closes source true next calls ∧
          (outcome = .allValid ↔ next = source.size))) ∨
      (outcome = .notValid ∧ ¬ construct.Skipped source ∧ (∃ next,
          Recognizes source.toList construct.rule 0 (some next) ∧
          construct.Closes source false next calls)) ∨
      (outcome = .notValid ∧ construct.Skipped source ∧ calls = []) ∨
      ((outcome = .notParsed ∨ outcome = .aborted) ∧ calls = []) := by
  intro run calls
  refine ⟨p.parse_logged construct source client world, fun calm => ?_,
    Xml.Construct.skipped_mem closed, fun outcome returned => ?_⟩
  · obtain ⟨-, -, answered, -⟩ := p.unswayed construct source world calm
    exact answered
  have accepted := Driver.refuse?_whole filled
  obtain ⟨next, forest, derives, judged, made⟩ | ⟨ended, made⟩ :=
    p.parse_given construct source world idle accepted accepting returned
  · have recognized := derives.recognizes
    rw [inputUpTo_size] at recognized
    obtain ⟨proper, act, span, children, wraps, rfl, inSource, first, rfl⟩ |
      ⟨skipped, invalid, silent⟩ := Xml.Construct.derives_wrapped closed derives
    · have closes := Xml.Construct.closes_tree wraps inSource first children
      have given : calls = (construct.items (.node act span children)).flatMap Item.calls := by
        simpa using made
      rw [← given] at closes
      simp only [List.all_cons, List.all_nil, Bool.and_true] at judged
      cases valid : Xml.isValid (.node act span children) with
      | false =>
        rw [valid] at judged closes
        exact .inr (.inl ⟨judged, proper, span.stop, recognized, closes⟩)
      | true =>
        rw [valid, Outcome.classify_valid] at judged
        rw [valid] at closes
        refine .inl ⟨?_, span.stop, recognized, closes, ?_⟩
        · rw [judged]
          split <;> rfl
        · rw [judged]
          by_cases whole : span.stop = source.size <;> simp [whole]
    · rw [invalid] at judged
      rw [silent] at made
      exact .inr (.inr (.inl ⟨judged, skipped, made⟩))
  · refine .inr (.inr (.inr ⟨ended, ?_⟩))
    simp [calls, run, made]

/-- A list of tokens that is not closed is skipped inside the action that wraps it. -/
theorem parse_closes_enumeratedType :
    let source : Source := (Text.utf8 "(a" ++ [0]).toArray
    let run := ({} : Xml.Parser).parse .enumeratedType source Xml.Client.deaf.logged { world := () }
    Xml.Construct.enumeratedType ∈ Xml.Construct.closed ∧ ({} : Xml.Parser).driver.busy = false ∧
    source.toList ≠ [] ∧ Xml.Client.deaf.Accepting ∧ Xml.Client.deaf.Calm ∧
    run.outcome = .ok .notValid ∧ ∃ next,
      Recognizes source.toList Xml.Construct.enumeratedType.rule 0 (some next) ∧
      Xml.Construct.enumeratedType.Closes source false next (run.world.calls.map (·.given)) := by
  intro source run
  have closed : Xml.Construct.enumeratedType ∈ Xml.Construct.closed := by simp [Xml.Construct.closed]
  have filled : source.toList ≠ [] := List.cons_ne_nil _ _
  have accepting : Xml.Client.deaf.Accepting := fun _ _ _ => rfl
  have judged : run.outcome = .ok .notValid := by decide +kernel
  obtain ⟨-, -, among, ends⟩ :=
    parse_closes {} .enumeratedType source .deaf () closed rfl filled accepting
  obtain ⟨good, -⟩ | ⟨-, -, found⟩ | ⟨-, skipped, -⟩ | ⟨missed, -⟩ := ends _ judged
  · cases good
  · exact ⟨closed, rfl, filled, accepting, Xml.Parser.deaf_calm, judged, found⟩
  · simpa using among skipped
  · simp at missed

end Backtrack
