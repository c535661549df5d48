import Backtrack.Journal

/-! Walking a journal in depth. How many of the events behind an action belong to it is read off its
count, and a count may say anything: the events that it takes and the events that it leaves are still
all the events behind the action. So a walk over the nodes and their children comes by each action
once, in the order of the list. -/
namespace Backtrack

variable {α : Type}

/-- The nodes that a walk comes by: each node, and before the next one its children in the same
way. -/
inductive Walks : List (Node α) → List (Node α) → Prop where
  | done : Walks [] []
  | visit {node : Node α} {nodes below inner after : List (Node α)} :
      node.children = .ok below → Walks below inner → Walks nodes after →
      Walks (node :: nodes) (node :: (inner ++ after))

theorem Walks.unique {nodes visited other : List (Node α)} (h : Walks nodes visited)
    (h' : Walks nodes other) : visited = other := by
  induction h generalizing other with
  | done => cases h'; rfl
  | visit below _ _ inner after =>
    cases h' with
    | visit below' inner' after' =>
      obtain rfl := Except.ok.inj (below.symm.trans below')
      rw [inner inner', after after']

/-- An action with the span that it matched. -/
def Node.entry (node : Node α) : α × Span := (node.action, node.span)

mutual

/-- The actions of a tree in pre-order, each with its span. -/
def Tree.entries : Tree α → List (α × Span)
  | .node action span children => (action, span) :: Tree.entriesOf children

def Tree.entriesOf : List (Tree α) → List (α × Span)
  | [] => []
  | tree :: trees => tree.entries ++ Tree.entriesOf trees

end

/-- No action ends before it starts. The places of actions that have not matched, and the counts, are
as they may be. -/
def Event.Ordered (events : List (Event α)) : Prop :=
  ∀ action start stop nested, .action action start stop nested ∈ events → start ≤ stop

theorem Event.Ordered.sublist {events part : List (Event α)} (ordered : Ordered events)
    (sub : part.Sublist events) : Ordered part :=
  fun action start stop nested member => ordered action start stop nested (sub.subset member)

namespace Journal

variable {source : Source} {events rest : List (Event α)} {node : Node α}

/-- The actions of a list of events, each with its part of the source. -/
def entries (source : Source) (events : List (Event α)) : List (α × Span) :=
  events.filterMap fun
    | .placeholder => none
    | .action action start stop _ => some (action, Span.clamp source start stop)

@[simp] theorem entries_action (action : α) (start stop nested : Nat) :
    entries source (.action action start stop nested :: events) =
      (action, Span.clamp source start stop) :: entries source events := rfl

@[simp] theorem entries_append (more : List (Event α)) :
    entries source (events ++ more) = entries source events ++ entries source more :=
  List.filterMap_append

/-- Whatever the count of an action takes, what it takes and what it leaves is all. -/
theorem entries_cut (nested : Nat) :
    entries source (events.take nested) ++ entries source (events.drop nested) =
      entries source events := by
  rw [← entries_append, List.take_append_drop]

theorem between_ordered {start stop : Nat} (ordered : start ≤ stop) :
    Span.between source start stop = .ok (Span.clamp source start stop) := if_pos ordered

/-- What the first node of a list of events leaves to be walked. -/
structure Splits (source : Source) (events : List (Event α)) (node : Node α)
    (rest : List (Event α)) : Prop where
  inSource : node.span.source = source
  all : entries source events = node.entry :: (entries source node.nested ++ entries source rest)
  nested : Event.Ordered node.nested
  rest : Event.Ordered rest

/-- Either no action is left, or the first node splits the list. -/
theorem next?_ordered (source : Source) (ordered : Event.Ordered events) :
    (next? source events = .ok none ∧ entries source events = []) ∨
      ∃ node rest, next? source events = .ok (some (node, rest)) ∧
        Splits source events node rest := by
  induction events with
  | nil => exact .inl ⟨rfl, rfl⟩
  | cons event events ih =>
    have tail : Event.Ordered events := ordered.sublist (List.sublist_cons_self ..)
    cases event with
    | placeholder =>
      rcases ih tail with ⟨last, none⟩ | ⟨node, rest, first, splits⟩
      · exact .inl ⟨last, none⟩
      · exact .inr ⟨node, rest, first, splits.inSource, splits.all, splits.nested, splits.rest⟩
    | action action start stop nested =>
      have inOrder : start ≤ stop := ordered action start stop nested List.mem_cons_self
      let span := Span.clamp source start stop
      refine .inr ⟨⟨action, span, events.take nested⟩, events.drop nested, ?_, rfl, ?_, ?_, ?_⟩
      · rw [next?, between_ordered inOrder]
        rfl
      · rw [entries_action, entries_cut]
        rfl
      · exact tail.sublist (List.take_sublist ..)
      · exact tail.sublist (List.drop_sublist ..)

theorem nodes_last (last : next? source events = .ok none) : nodes source events = .ok [] := by
  rw [nodes]
  split <;> simp_all

theorem nodes_next (first : next? source events = .ok (some (node, rest))) :
    nodes source events = (nodes source rest).map (node :: ·) := by
  rw [nodes]
  split
  · simp_all
  · simp_all
  · rename_i node' rest' first'
    obtain ⟨rfl, rfl⟩ : node' = node ∧ rest' = rest := by simpa [first] using first'.symm
    cases nodes source rest' <;> rfl

theorem forest_last (last : next? source events = .ok none) : forest source events = .ok [] := by
  rw [forest]
  split <;> simp_all

theorem forest_next (first : next? source events = .ok (some (node, rest)))
    {children others : List (Tree α)} (below : forest source node.nested = .ok children)
    (after : forest source rest = .ok others) :
    forest source events = .ok (.node node.action node.span children :: others) := by
  rw [forest]
  split
  · simp_all
  · simp_all
  · rename_i node' rest' first'
    obtain ⟨rfl, rfl⟩ : node' = node ∧ rest' = rest := by simpa [first] using first'.symm
    rw [below, after]
    rfl

/-- Induction over the events as a reader takes them apart: those in the first node, and those behind
it. Both are fewer than all events. -/
@[elab_as_elim]
theorem ordered_induction (source : Source) {motive : List (Event α) → Prop}
    (last : ∀ events, next? source events = .ok none → entries source events = [] → motive events)
    (node : ∀ events node rest, next? source events = .ok (some (node, rest)) →
      Splits source events node rest → motive node.nested → motive rest → motive events)
    {events : List (Event α)} (ordered : Event.Ordered events) : motive events := by
  induction size : events.length using Nat.strongRecOn generalizing events with
  | ind size ih =>
    subst size
    rcases next?_ordered source ordered with ⟨ended, none⟩ | ⟨first, rest, read, splits⟩
    · exact last events ended none
    · obtain ⟨fewer, fewer'⟩ := next?_sizes read
      exact node events first rest read splits (ih _ fewer splits.nested rfl)
        (ih _ fewer' splits.rest rfl)

/-- A list of events in order is walked, and the walk is the list of its actions. -/
theorem walked (source : Source) (ordered : Event.Ordered events) :
    ∃ top visited, nodes source events = .ok top ∧ Walks top visited ∧
      visited.map Node.entry = entries source events ∧
      ∀ node ∈ visited, Event.Ordered node.nested := by
  refine ordered_induction source ?_ ?_ ordered
  · exact fun events last none => ⟨[], [], nodes_last last, .done, none.symm, nofun⟩
  · rintro events node rest first splits ⟨below, inner, children, walksBelow, entriesBelow,
      orderedBelow⟩ ⟨others, after, siblings, walksAfter, entriesAfter, orderedAfter⟩
    refine ⟨node :: others, node :: (inner ++ after), ?_, ?_, ?_, ?_⟩
    · rw [nodes_next first, siblings]
      rfl
    · refine .visit ?_ walksBelow walksAfter
      rw [Node.children, splits.inSource, children]
    · rw [List.map_cons, List.map_append, entriesBelow, entriesAfter, splits.all]
    · intro visited member
      rcases List.mem_cons.mp member with rfl | member
      · exact splits.nested
      · rcases List.mem_append.mp member with member | member
        · exact orderedBelow visited member
        · exact orderedAfter visited member

/-- The trees of a list of events in order hold its actions in pre-order. -/
theorem forest_entries (source : Source) (ordered : Event.Ordered events) :
    ∃ trees, forest source events = .ok trees ∧ Tree.entriesOf trees = entries source events := by
  refine ordered_induction source ?_ ?_ ordered
  · exact fun events last none => ⟨[], forest_last last, none.symm⟩
  · rintro events node rest first splits ⟨children, below, entriesBelow⟩
      ⟨others, after, entriesAfter⟩
    refine ⟨_, forest_next first below after, ?_⟩
    rw [Tree.entriesOf, Tree.entries, entriesBelow, entriesAfter, splits.all]
    rfl

/-- The flat list of nodes leaves out no action and visits none twice, without looking at a
count. -/
theorem everyNode_entries (source : Source) (ordered : Event.Ordered events) :
    ∃ found, everyNode source events = .ok found ∧
      found.map Node.entry = entries source events := by
  induction events with
  | nil => exact ⟨[], rfl, rfl⟩
  | cons event events ih =>
    obtain ⟨found, read, same⟩ := ih (ordered.sublist (List.sublist_cons_self ..))
    cases event with
    | placeholder => exact ⟨found, read, same⟩
    | action action start stop nested =>
      have inOrder : start ≤ stop := ordered action start stop nested List.mem_cons_self
      refine ⟨⟨action, Span.clamp source start stop, events.take nested⟩ :: found, ?_, ?_⟩
      · rw [everyNode, between_ordered inOrder, read]
        rfl
      · rw [List.map_cons, same, entries_action]
        rfl

end Journal

/-- The descendants of a node are what a walk over its children comes by. -/
theorem Node.descendants_walked {node : Node α} (ordered : Event.Ordered node.nested) :
    ∃ below inner found, node.children = .ok below ∧ Walks below inner ∧
      node.descendants = .ok found ∧ found.map Node.entry = inner.map Node.entry := by
  obtain ⟨below, inner, children, walks, same, -⟩ :=
    Journal.walked node.span.source ordered
  obtain ⟨found, read, every⟩ := Journal.everyNode_entries node.span.source ordered
  exact ⟨below, inner, found, children, walks, read, every.trans same.symm⟩

/-- A walk in depth over any list of events, with places of unmatched actions anywhere and any
counts, ends. It is the only one, and it comes by each action of the list once, in the order of the
list, with the action and the span of the event; the trees of the list are the same walk. What a walk
over the children of a node comes by are the descendants of the node. -/
theorem walk_lossless (source : Source) (events : List (Event α))
    (ordered : Event.Ordered events) :
    ∃ top visited, Journal.nodes source events = .ok top ∧ Walks top visited ∧
      (∀ other, Walks top other → visited = other) ∧
      visited.map Node.entry = Journal.entries source events ∧
      (∃ trees, Journal.forest source events = .ok trees ∧
        Tree.entriesOf trees = Journal.entries source events) ∧
      ∀ node ∈ visited, ∃ below inner found, node.children = .ok below ∧ Walks below inner ∧
        node.descendants = .ok found ∧ found.map Node.entry = inner.map Node.entry := by
  obtain ⟨top, visited, nodes, walks, same, nested⟩ := Journal.walked source ordered
  refine ⟨top, visited, nodes, walks, fun other => walks.unique, same, ?_, ?_⟩
  · exact Journal.forest_entries source ordered
  · exact fun node member => Node.descendants_walked (nested node member)

/-- A count that reaches past the count around it and past the end, with a place in between that was
never filled. -/
theorem walk_lossless_overrun :
    let source : Source := #[0x61, 0x62, 0x63]
    let events : List (Event Nat) :=
      [.placeholder, .action 1 0 2 2, .placeholder, .action 2 1 2 9, .action 3 2 7 4]
    Event.Ordered events ∧
    ∃ top visited, Journal.nodes source events = .ok top ∧ Walks top visited ∧
      visited.map (fun node => (node.action, node.span.start, node.span.stop)) =
        [(1, 0, 2), (2, 1, 2), (3, 2, 3)] := by
  intro source events
  have ordered : Event.Ordered events := by
    intro action start stop nested member
    simp only [events, List.mem_cons, List.not_mem_nil, or_false, reduceCtorEq, false_or,
      Event.action.injEq] at member
    omega
  obtain ⟨top, visited, nodes, walks, -, same, -⟩ := walk_lossless source events ordered
  refine ⟨ordered, top, visited, nodes, walks, ?_⟩
  have shown := congrArg (List.map fun (action, span) => (action, span.start, span.stop)) same
  rw [List.map_map] at shown
  exact shown.trans rfl

end Backtrack
