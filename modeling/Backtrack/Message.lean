/-! Messages about the input, graded by severity. -/
namespace Backtrack

inductive Level where
  | none
  | info
  /-- Context of the message that follows. -/
  | content
  | warn
  | minor
  | major
  | fatal
  | except
  deriving DecidableEq

namespace Level

def all : List Level := [none, info, content, warn, minor, major, fatal, except]

def rank : Level → Nat
  | none => 0
  | info => 1
  | content => 2
  | warn => 3
  | minor => 4
  | major => 5
  | fatal => 6
  | except => 7

instance : LE Level := ⟨fun a b => a.rank ≤ b.rank⟩
instance (a b : Level) : Decidable (a ≤ b) := inferInstanceAs (Decidable (a.rank ≤ b.rank))
instance : Max Level := ⟨fun a b => if a ≤ b then b else a⟩

/-- Errors are charged to the budget. -/
def isError (level : Level) : Bool := decide (minor ≤ level)

def name : Level → String
  | none => "None"
  | info => "Info"
  | content => "Content"
  | warn => "Warn"
  | minor => "Minor"
  | major => "Major"
  | fatal => "Fatal"
  | except => "Except"

end Level

structure Message where
  level : Level
  text : String
  /-- The grammar that raises the message. -/
  origin : Option String
  deriving DecidableEq

namespace Message

def minor (text : String) : Message := ⟨.minor, text, none⟩
def major (text : String) : Message := ⟨.major, text, none⟩
def fatal (text : String) : Message := ⟨.fatal, text, none⟩

def withOrigin (m : Message) (origin : String) : Message := { m with origin := some origin }

end Message

/-- A message on its way to the sink. Line 0 stands for no line. -/
structure Notice extends Message where
  line : Nat
  deriving DecidableEq

structure Report where
  errors : Nat := 0
  highest : Level := .none
  deriving DecidableEq

end Backtrack
