import Backtrack.Span

/-! Lines and columns, both counted from 1. The index holds where each line starts; the line of an
offset is the number of starts at or before it, found by bisection. -/
namespace Backtrack

structure Position where
  line : Nat
  column : Nat
  deriving DecidableEq

/-- Lines and columns are 32-bit numbers that stay at the greatest one. -/
def saturate (n : Nat) : Nat := min n 0xFFFFFFFF

structure LineIndex where
  starts : Array Nat

namespace LineIndex

def ofSource (source : Source) : LineIndex :=
  ⟨(source.foldl (fun (next, starts) b =>
    (next + 1, if b = 0x0A then starts.push (next + 1) else starts)) (0, #[0])).2⟩

/-- Counts the starts at or before `offset`, given that those below index `low` are and those from
index `high` on are not. -/
def countUpTo (starts : Array Nat) (offset low high : Nat) : Nat :=
  if low < high then
    let mid := (low + high) / 2
    if starts.getD mid (offset + 1) ≤ offset then countUpTo starts offset (mid + 1) high
    else countUpTo starts offset low mid
  else low
termination_by high - low

def position (index : LineIndex) (offset : Nat) : Position :=
  let line := max 1 (countUpTo index.starts offset 0 index.starts.size)
  ⟨saturate line, saturate (offset - index.starts.getD (line - 1) 0 + 1)⟩

def line (index : LineIndex) (offset : Nat) : Nat := (index.position offset).line

end LineIndex

def Position.render (p : Position) : String := s!"{p.line}:{p.column}"

end Backtrack
