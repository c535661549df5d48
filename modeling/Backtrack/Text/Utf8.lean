/-! Bytes and text. A source is a sequence of bytes that need not be UTF-8; `scan` cuts it into
characters and maximal malformed parts, and `lossy` and `strict?` are its two readings. -/
namespace Backtrack

abbrev Bytes := List UInt8

namespace Text

def utf8 (text : String) : Bytes := text.toList.flatMap String.utf8EncodeChar

/-- The bits a leading byte carries itself, and the ranges its continuation bytes fall in. -/
structure Lead where
  bits : Nat
  tails : List (UInt8 × UInt8)

def tail : UInt8 × UInt8 := (0x80, 0xBF)

/-- The narrowed first ranges exclude overlong forms, surrogates and values past U+10FFFF. -/
def lead? (b : UInt8) : Option Lead :=
  if b < 0x80 then some ⟨b.toNat, []⟩
  else if b < 0xC2 then none
  else if b < 0xE0 then some ⟨b.toNat % 32, [tail]⟩
  else if b = 0xE0 then some ⟨0, [(0xA0, 0xBF), tail]⟩
  else if b = 0xED then some ⟨13, [(0x80, 0x9F), tail]⟩
  else if b < 0xF0 then some ⟨b.toNat % 16, [tail, tail]⟩
  else if b = 0xF0 then some ⟨0, [(0x90, 0xBF), tail, tail]⟩
  else if b < 0xF4 then some ⟨b.toNat % 8, [tail, tail, tail]⟩
  else if b = 0xF4 then some ⟨4, [(0x80, 0x8F), tail, tail]⟩
  else none

/-- Reads continuation bytes as long as they fall in their ranges, and returns what follows. -/
def follow : List (UInt8 × UInt8) → Nat → Bytes → Option Nat × Bytes
  | [], value, rest => (some value, rest)
  | _ :: _, _, [] => (none, [])
  | (low, high) :: tails, value, b :: rest =>
    if low ≤ b ∧ b ≤ high then follow tails (value * 64 + b.toNat % 64) rest else (none, b :: rest)

theorem follow_length (tails : List (UInt8 × UInt8)) (value : Nat) (rest : Bytes) :
    (follow tails value rest).2.length ≤ rest.length := by
  fun_induction follow tails value rest <;> simp_all
  omega

/-- The characters of a byte string, with `none` for each maximal malformed part. -/
def scan : Bytes → List (Option Char)
  | [] => []
  | b :: rest =>
    match lead? b with
    | none => none :: scan rest
    | some lead =>
      have := follow_length lead.tails lead.bits rest
      let read := follow lead.tails lead.bits rest
      read.1.map Char.ofNat :: scan read.2
termination_by bytes => bytes.length
decreasing_by all_goals grind

def lossy (bytes : Bytes) : String := String.ofList ((scan bytes).map (·.getD '\uFFFD'))

def strict? (bytes : Bytes) : Option String := ((scan bytes).mapM id).map String.ofList

end Text
end Backtrack
