import Backtrack.Text.Quoted
import Backtrack.Text.Utf8

/-! Byte classes. A class is a membership table over all 256 byte values; `runs` lists its maximal
ranges in ascending order, and that list is its printed form. -/
namespace Backtrack

structure CharSet where
  bits : BitVec 256
  deriving DecidableEq

namespace CharSet

def empty : CharSet := ⟨0⟩
def full : CharSet := ⟨BitVec.allOnes 256⟩

def contains (s : CharSet) (b : UInt8) : Bool := s.bits.getLsbD b.toNat

def isEmpty (s : CharSet) : Bool := s.bits == 0

def insert (s : CharSet) (b : UInt8) : CharSet := ⟨s.bits ||| BitVec.twoPow 256 b.toNat⟩

/-- Inserts every byte from `low` to `high`; nothing when `high` is below `low`. -/
def insertRange (s : CharSet) (low high : UInt8) : CharSet :=
  (List.range' low.toNat (high.toNat + 1 - low.toNat)).foldl (fun s n => s.insert (UInt8.ofNat n)) s

def ofBytes (bytes : Bytes) : CharSet := bytes.foldl insert empty

def range (low high : UInt8) : CharSet := empty.insertRange low high

instance : Union CharSet := ⟨fun a b => ⟨a.bits ||| b.bits⟩⟩
instance : SDiff CharSet := ⟨fun a b => ⟨a.bits &&& ~~~b.bits⟩⟩
instance : Complement CharSet := ⟨fun a => full \ a⟩

def insertSpec : CharSet → Bytes → CharSet
  | s, [] => s
  | s, low :: mid :: high :: rest =>
    if mid = 0x2D then insertSpec (s.insertRange low high) rest
    else insertSpec (s.insert low) (mid :: high :: rest)
  | s, b :: rest => insertSpec (s.insert b) rest

/-- Reads a range expression such as `a-zA-Z_`. A dash first or last stands for itself. -/
def parse (spec : Bytes) : CharSet := insertSpec empty spec

/-- Printable ASCII. A tab is not printable. -/
def printable : CharSet := range 0x20 0x7E
def alpha : CharSet := parse (Text.utf8 "a-zA-Z")
def digit : CharSet := range 0x30 0x39
def alnum : CharSet := alpha ∪ digit
def blank : CharSet := ofBytes (Text.utf8 " \t")

def members (s : CharSet) : Bytes := ((List.range 256).map UInt8.ofNat).filter s.contains

/-- Puts `b` in front of runs that all lie above it. -/
def extend (b : UInt8) : List (UInt8 × UInt8) → List (UInt8 × UInt8)
  | (low, high) :: rest =>
    if b.toNat + 1 = low.toNat then (b, high) :: rest else (b, b) :: (low, high) :: rest
  | [] => [(b, b)]

def runs (s : CharSet) : List (UInt8 × UInt8) := s.members.foldr extend []

def hexByte (b : UInt8) : String :=
  "0x" ++ (if b < 16 then "0" else "") ++ Text.hex b.toNat

def renderRun : UInt8 × UInt8 → String
  | (low, high) => if low = high then hexByte low else hexByte low ++ "-" ++ hexByte high

def render (s : CharSet) : String := "CharSet[" ++ " ".intercalate (s.runs.map renderRun) ++ "]"

end CharSet
end Backtrack
