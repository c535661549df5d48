import Backtrack.Fault
import Backtrack.Text.Utf8

/-! Views of a source. A span always lies inside its source: `clamp` cuts both ends to it, and
`between` refuses offsets in the wrong order before it does the same. -/
namespace Backtrack

abbrev Source := Array UInt8

structure Span where
  source : Source
  start : Nat
  stop : Nat
  start_le_stop : start ≤ stop
  stop_le_size : stop ≤ source.size

namespace Span

def clamp (source : Source) (start stop : Nat) : Span :=
  ⟨source, min start (min stop source.size), min stop source.size,
    Nat.min_le_right .., Nat.min_le_right ..⟩

def between (source : Source) (start stop : Nat) : Except Fault Span :=
  if start ≤ stop then .ok (clamp source start stop) else .error (.invertedSpan start stop)

def whole (source : Source) : Span := clamp source 0 source.size

def size (s : Span) : Nat := s.stop - s.start

def isEmpty (s : Span) : Bool := s.start == s.stop

def bytes (s : Span) : Bytes := (s.source.extract s.start s.stop).toList

def text (s : Span) : String := Text.lossy s.bytes

def isBlank (b : UInt8) : Bool := b == 0x20 || b == 0x09

/-- Strips spaces and tabs from both ends. -/
def trimBlanks (s : Span) : Span :=
  let kept := s.bytes.dropWhile isBlank
  let leading := s.size - kept.length
  let trailing := (kept.reverse.takeWhile isBlank).length
  clamp s.source (s.start + leading) (s.stop - trailing)

def describe (s : Span) : String := s!"{Text.quoted s.text}@{s.start}..{s.stop}"

end Span
end Backtrack
