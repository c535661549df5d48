import Backtrack.Span

/-! The journal of a match: actions in the order in which they started, each with the number of
events recorded inside it. `nodes` reads the flat list as siblings, `forest` as trees. Counts that
reach past the end of the list are cut to it. -/
namespace Backtrack

inductive Event (α : Type) where
  /-- Holds the place of an action that has not matched yet. -/
  | placeholder
  | action (action : α) (start stop nested : Nat)
  deriving DecidableEq

/-- An action with the span it matched and the events nested in it. -/
structure Node (α : Type) where
  action : α
  span : Span
  nested : List (Event α)

inductive Tree (α : Type) where
  | node (action : α) (span : Span) (children : List (Tree α))

namespace Tree

variable {α : Type}

def action : Tree α → α
  | node action _ _ => action

def span : Tree α → Span
  | node _ span _ => span

def children : Tree α → List (Tree α)
  | node _ _ children => children

mutual

/-- Whether an action at any depth satisfies `p`. -/
def any (p : α → Bool) : Tree α → Bool
  | node action _ children => p action || anyOf p children

def anyOf (p : α → Bool) : List (Tree α) → Bool
  | [] => false
  | tree :: trees => tree.any p || anyOf p trees

end

end Tree

namespace Journal

variable {α : Type}

/-- The first node of a list of events, and the events after it. -/
def next? (source : Source) : List (Event α) → Except Fault (Option (Node α × List (Event α)))
  | [] => .ok none
  | .placeholder :: rest => next? source rest
  | .action action start stop nested :: rest => do
    let span ← Span.between source start stop
    return some (⟨action, span, rest.take nested⟩, rest.drop nested)

theorem next?_sizes {source : Source} {events rest : List (Event α)} {node : Node α}
    (h : next? source events = .ok (some (node, rest))) :
    node.nested.length < events.length ∧ rest.length < events.length := by
  fun_induction next? source events with
  | case1 => simp at h
  | case2 tail ih => have := ih h; grind
  | case3 action start stop nested tail =>
    simp only [bind, Except.bind, pure, Except.pure] at h
    split at h
    · simp at h
    · simp only [Except.ok.injEq, Option.some.injEq, Prod.mk.injEq] at h
      obtain ⟨rfl, rfl⟩ := h
      grind

/-- The nodes of one level. -/
def nodes (source : Source) (events : List (Event α)) : Except Fault (List (Node α)) :=
  match h : next? source events with
  | .error fault => .error fault
  | .ok none => .ok []
  | .ok (some (node, rest)) => do
    have := (next?_sizes h).2
    return node :: (← nodes source rest)
termination_by events.length

/-- The nodes of every level, as trees. -/
def forest (source : Source) (events : List (Event α)) : Except Fault (List (Tree α)) :=
  match h : next? source events with
  | .error fault => .error fault
  | .ok none => .ok []
  | .ok (some (node, rest)) => do
    have := next?_sizes h
    let children ← forest source node.nested
    return .node node.action node.span children :: (← forest source rest)
termination_by events.length

/-- The node at each action of a list of events, whatever its level. -/
def everyNode (source : Source) : List (Event α) → Except Fault (List (Node α))
  | [] => .ok []
  | .placeholder :: rest => everyNode source rest
  | .action action start stop nested :: rest => do
    let span ← Span.between source start stop
    return ⟨action, span, rest.take nested⟩ :: (← everyNode source rest)

end Journal

namespace Node

variable {α : Type}

def children (node : Node α) : Except Fault (List (Node α)) :=
  Journal.nodes node.span.source node.nested

/-- Every node at any depth below this one, in the order of the journal. -/
def descendants (node : Node α) : Except Fault (List (Node α)) :=
  Journal.everyNode node.span.source node.nested

end Node
end Backtrack
