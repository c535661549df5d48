import Backtrack.Assoc

/-! TOML values and what may be added to a table. A table is open to more entries only in the way it
was begun: by headers, by dotted keys, or in one piece between braces. -/
namespace Backtrack.Toml

inductive TableKind where
  /-- Named only on the way to a table with a header. -/
  | implied
  /-- Named on the way to the end of a dotted key. -/
  | dotted
  | header
  | inline
  deriving DecidableEq

/-- Numbers with a fraction or an exponent and moments in time are kept as they are written. -/
inductive Value where
  | text (text : String)
  | integer (n : Int)
  | float (text : String)
  | boolean (b : Bool)
  | moment (text : String)
  | array (items : List Value)
  | table (kind : TableKind) (entries : List (String × Value))
  /-- The tables under doubled headers of one name, the last one first. -/
  | tables (items : List (List (String × Value)))

abbrev Entries := List (String × Value)

structure Key where
  path : List String
  name : String

/-- A path goes on through such a table. -/
def TableKind.admits (dotted : Bool) : TableKind → Bool
  | implied => true
  | .dotted => true
  | header => !dotted
  | inline => false

/-- Changes the table at the end of a path, and begins the tables on the way that are not there. -/
def change (dotted : Bool) (f : TableKind → Entries → Option Entries) :
    List String → TableKind → Entries → Option Entries
  | [], kind, entries => f kind entries
  | name :: path, _, entries => do
    let below ← match entries.lookup name with
      | none =>
        let kind := if dotted then TableKind.dotted else .implied
        (change dotted f path kind []).map (.table kind)
      | some (.table kind inner) =>
        if kind.admits dotted then (change dotted f path kind inner).map (.table kind) else none
      | some (.tables (last :: earlier)) =>
        (change dotted f path .header last).map fun last => .tables (last :: earlier)
      | some _ => none
    return Assoc.set name below entries

/-- Adds a new entry. A dotted key ends in a table begun by dotted keys. -/
def addPair (key : Key) (value : Value) : TableKind → Entries → Option Entries :=
  change true (fun kind entries =>
    if (kind == .dotted) == key.path.isEmpty || (entries.lookup key.name).isSome then none
    else some (Assoc.set key.name value entries)) key.path

/-- Begins the table under a header. Only an implied table may be there already. -/
def openTable (key : Key) : Entries → Option Entries :=
  change false (fun _ entries =>
    match entries.lookup key.name with
    | none => some (Assoc.set key.name (.table .header []) entries)
    | some (.table .implied inner) => some (Assoc.set key.name (.table .header inner) entries)
    | some _ => none) key.path .header

/-- Begins one more table under a doubled header. -/
def openElement (key : Key) : Entries → Option Entries :=
  change false (fun _ entries =>
    match entries.lookup key.name with
    | none => some (Assoc.set key.name (.tables [[]]) entries)
    | some (.tables items) => some (Assoc.set key.name (.tables ([] :: items)) entries)
    | some _ => none) key.path .header

inductive Line where
  | pair (key : Key) (value : Value)
  | table (key : Key)
  | element (key : Key)

structure Document where
  root : Entries := []
  /-- The path of the last header. -/
  place : List String := []

def Document.add (d : Document) : Line → Option Document
  | .pair key value => (change false (addPair key value) d.place .header d.root).map (⟨·, d.place⟩)
  | .table key => (openTable key d.root).map (⟨·, key.path ++ [key.name]⟩)
  | .element key => (openElement key d.root).map (⟨·, key.path ++ [key.name]⟩)

end Backtrack.Toml
