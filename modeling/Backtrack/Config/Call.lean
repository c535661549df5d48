import Backtrack.Config.Grammar
import Backtrack.Delivery

/-! The calls on a receiver of config content, in the order of the file. A pair before the first
section is global. -/
namespace Backtrack.Config

inductive Call where
  | globalKey (key : Span) (value : Option Span)
  | sectionName (name : Span)
  | sectionKey (key : Span) (value : Option Span)
  /-- Made last, and without an answer. -/
  | done (valid : Bool)

def isDefect (action : Action) : Bool := action == .invalid || action == .unclosedQuote

def isValid (tree : Tree Action) : Bool := !tree.any isDefect

def trimmed (p : Policy) (span : Span) : Span := if p.trim then span.trimBlanks else span

def key? (p : Policy) (tree : Tree Action) : Option Span :=
  match tree.action with
  | .key => some (trimmed p tree.span)
  | _ => none

/-- Quoted values keep their blanks. -/
def value? (p : Policy) (tree : Tree Action) : Option Span :=
  match tree.action with
  | .value => some (trimmed p tree.span)
  | .quotedValue => some tree.span
  | _ => none

/-- The key and the value of a pair. A pair with an unclosed quote counts for nothing. -/
def pair? (p : Policy) (parts : List (Tree Action)) : Option (Span × Option Span) := do
  if parts.any (·.action == .unclosedQuote) then none
  let key ← (parts.filterMap (key? p)).getLast?
  return (key, (parts.filterMap (value? p)).getLast?)

def calls (p : Policy) : (inSection : Bool) → List (Tree Action) → List Call
  | _, [] => []
  | inSection, tree :: rest =>
    match tree.action with
    | .sectionName => .sectionName (trimmed p tree.span) :: calls p true rest
    | .keyValue =>
      match pair? p tree.children with
      | some (key, value) =>
        let call := if inSection then Call.sectionKey key value else .globalKey key value
        call :: calls p inSection rest
      | none => calls p inSection rest
    | _ => calls p inSection rest

end Backtrack.Config
