import Backtrack.Text.Pieces
import Backtrack.Toml.Value

/-! Bare TOML values: numbers, truth values and moments in time. -/
namespace Backtrack.Toml

def digit? (base : Nat) (c : Char) : Option Nat :=
  let value :=
    if c.isDigit then c.toNat - 48
    else if 'a' ≤ c ∧ c ≤ 'f' then c.toNat - 87
    else if 'A' ≤ c ∧ c ≤ 'F' then c.toNat - 55
    else base
  if value < base then some value else none

def natural? (base : Nat) (digits : List Char) : Option Nat :=
  if digits.isEmpty then none
  else digits.foldlM (fun n c => (digit? base c).map (n * base + ·)) 0

/-- Digits in groups, with one underscore between two groups. -/
def groups? (base : Nat) (cs : List Char) : Option (List Char) :=
  let groups := Text.pieces '_' cs
  if groups.all fun group => (natural? base group).isSome then some groups.flatten else none

/-- A decimal number without a needless zero in front. -/
def decimal? (cs : List Char) : Option (List Char) :=
  match groups? 10 cs with
  | some ('0' :: _ :: _) => none
  | other => other

def signed (cs : List Char) : Bool × List Char :=
  match cs with
  | '-' :: rest => (true, rest)
  | '+' :: rest => (false, rest)
  | _ => (false, cs)

def integer? (cs : List Char) : Option Int := do
  let n : Int ← match cs with
    | '0' :: 'x' :: rest => (groups? 16 rest >>= natural? 16).map Int.ofNat
    | '0' :: 'o' :: rest => (groups? 8 rest >>= natural? 8).map Int.ofNat
    | '0' :: 'b' :: rest => (groups? 2 rest >>= natural? 2).map Int.ofNat
    | _ =>
      let (negative, rest) := signed cs
      (decimal? rest >>= natural? 10).map fun n => if negative then -(n : Int) else n
  if -0x8000000000000000 ≤ n ∧ n < 0x8000000000000000 then some n else none

/-- The text before the first character that satisfies `p`, and the text after it. -/
def cut (p : Char → Bool) (cs : List Char) : List Char × Option (List Char) :=
  match cs.dropWhile (!p ·) with
  | [] => (cs, none)
  | _ :: rest => (cs.takeWhile (!p ·), some rest)

/-- Half way between the largest double and the power of two after it. -/
def floatBound : Nat := Nat.pow 2 1024 - Nat.pow 2 970

/-- The number `digits * 10 ^ scale` rounds to no finite double. -/
def tooLarge (digits : List Char) (scale : Int) : Bool :=
  match natural? 10 digits with
  | none | some 0 => false
  | some n =>
    if digits.length + scale ≤ 308 then false
    else if 309 ≤ scale then true
    else if 0 ≤ scale then floatBound ≤ n * Nat.pow 10 scale.toNat
    else floatBound * Nat.pow 10 (-scale).toNat ≤ n

def isFloat (cs : List Char) : Bool :=
  let (_, magnitude) := signed cs
  if magnitude = "inf".toList ∨ magnitude = "nan".toList then true
  else
    let (mantissa, exponent) := cut (fun c => c == 'e' || c == 'E') magnitude
    let (whole, fraction) := cut (· == '.') mantissa
    let checked : Option Bool := do
      let whole ← decimal? whole
      let fractionDigits ← (fraction.map (groups? 10)).getD (some [])
      let (negative, exponentText) := signed (exponent.getD ['0'])
      let power ← groups? 10 exponentText >>= natural? 10
      let power : Int := if negative then -(power : Int) else power
      return (fraction.isSome || exponent.isSome)
        && !tooLarge (whole ++ fractionDigits) (power - fractionDigits.length)
    checked.getD false

def daysIn (year month : Nat) : Nat :=
  if month = 2 then
    if year % 4 = 0 ∧ (year % 100 ≠ 0 ∨ year % 400 = 0) then 29 else 28
  else if month ∈ [4, 6, 9, 11] then 30
  else 31

/-- Reads a number of as many digits as are given, not past `most`. -/
def upTo? (most : Nat) (digits : List Char) : Option Nat :=
  (natural? 10 digits).filter (· ≤ most)

/-- What follows a date. -/
def afterDate? : List Char → Option (List Char)
  | y₁ :: y₂ :: y₃ :: y₄ :: '-' :: m₁ :: m₂ :: '-' :: d₁ :: d₂ :: rest => do
    let year ← upTo? 9999 [y₁, y₂, y₃, y₄]
    let month ← upTo? 12 [m₁, m₂]
    let day ← upTo? (daysIn year month) [d₁, d₂]
    if month = 0 ∨ day = 0 then none else some rest
  | _ => none

/-- What follows the hour and the minute. -/
def afterMinute? (mostHours : Nat) : List Char → Option (List Char)
  | h₁ :: h₂ :: ':' :: m₁ :: m₂ :: rest =>
    if (upTo? mostHours [h₁, h₂]).isSome && (upTo? 59 [m₁, m₂]).isSome then some rest else none
  | _ => none

/-- What follows the seconds, which may be left out; the last may be a leap second. -/
def afterSecond? : List Char → Option (List Char)
  | ':' :: s₁ :: s₂ :: rest =>
    if (upTo? 60 [s₁, s₂]).isNone then none
    else match rest with
      | '.' :: digits =>
        if digits.head?.any Char.isDigit then some (digits.dropWhile Char.isDigit) else none
      | _ => some rest
  | ':' :: _ => none
  | rest => some rest

def afterTime? (cs : List Char) : Option (List Char) := afterMinute? 23 cs >>= afterSecond?

/-- The distance to universal time, or nothing. -/
def isOffset : List Char → Bool
  | [] => true
  | [c] => c == 'Z' || c == 'z'
  | c :: rest => (c == '+' || c == '-') && afterMinute? 23 rest == some []

def isDate (cs : List Char) : Bool := afterDate? cs == some []

def isMoment (cs : List Char) : Bool :=
  match afterDate? cs with
  | some [] => true
  | some (c :: rest) => (c == 'T' || c == 't' || c == ' ') && ((afterTime? rest).any isOffset)
  | none => afterTime? cs == some []

def scalar? (text : String) : Option Value :=
  if text = "true" then some (.boolean true)
  else if text = "false" then some (.boolean false)
  else match integer? text.toList with
  | some n => some (.integer n)
  | none =>
    if isFloat text.toList then some (.float text)
    else if isMoment text.toList then some (.moment text)
    else none

end Backtrack.Toml
