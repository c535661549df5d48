import Backtrack.Lines

/-! Named scopes that are open around a message. They say where an error happened and never steer
matching. -/
namespace Backtrack

structure Breadcrumb where
  label : String
  name : String
  position : Option Position
  deriving DecidableEq

def Breadcrumb.render (crumb : Breadcrumb) : String :=
  let place := s!"Inside {crumb.label} section for {crumb.name}"
  match crumb.position with
  | some ⟨line, column⟩ => place ++ s!" on line {line} at char {column}."
  | none => place

/-- Open scopes, outermost first. -/
structure Breadcrumbs where
  scopes : Array Breadcrumb := #[]
  deriving DecidableEq

namespace Breadcrumbs

def push (b : Breadcrumbs) (crumb : Breadcrumb) : Breadcrumbs := ⟨b.scopes.push crumb⟩

def pop (b : Breadcrumbs) : Breadcrumbs := ⟨b.scopes.pop⟩

/-- Swaps the innermost scope for a sibling, or opens one if none is open. -/
def replace (b : Breadcrumbs) (crumb : Breadcrumb) : Breadcrumbs := b.pop.push crumb

def top? (b : Breadcrumbs) : Option Breadcrumb := b.scopes.back?

def depth (b : Breadcrumbs) : Nat := b.scopes.size

def isEmpty (b : Breadcrumbs) : Bool := b.scopes.isEmpty

/-- Closes the scopes opened past `depth`; a shallower stack stays as it is. -/
def truncate (b : Breadcrumbs) (depth : Nat) : Breadcrumbs := ⟨b.scopes.shrink depth⟩

/-- The innermost `count` scopes, deepest first. -/
def innermost (b : Breadcrumbs) (count : Nat) : List String :=
  (b.scopes.toList.reverse.take count).map Breadcrumb.render

end Breadcrumbs
end Backtrack
