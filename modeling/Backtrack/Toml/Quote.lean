import Backtrack.Toml.Scalar

/-! Quoted TOML text. Double quotes allow escapes and single quotes do not; three quotes allow line
breaks and up to two quotes in a row. Reading begins after the opening quotes and returns what
follows the closing ones. -/
namespace Backtrack.Toml

def isBlank (c : Char) : Bool := c == ' ' || c == '\t'

/-- No control character other than a tab. -/
def isAllowed (c : Char) : Bool := c == '\t' || (' ' ≤ c && c != '\x7f')

def escaped? : Char → Option Char
  | 'b' => some '\x08'
  | 't' => some '\t'
  | 'n' => some '\n'
  | 'f' => some '\x0c'
  | 'r' => some '\r'
  | 'e' => some '\x1b'
  | '"' => some '"'
  | '\\' => some '\\'
  | _ => none

/-- The character with a code point in hexadecimal digits. -/
def codePoint? (digits : List Char) : Option Char := do
  let n ← natural? 16 digits
  if n.isValidChar then some (Char.ofNat n) else none

/-- Nothing but blanks before the end of the line. -/
def endsLine (cs : List Char) : Bool :=
  match cs.dropWhile isBlank with
  | '\n' :: _ => true
  | '\r' :: '\n' :: _ => true
  | _ => false

/-- The quotes before three closing ones, and what follows those. -/
def closing? (quote : Char) : List Char → Option (List Char × List Char)
  | a :: b :: c :: rest =>
    if a = quote ∧ b = quote ∧ c = quote then
      let inner := (rest.take 2).takeWhile (· = quote)
      some (inner, rest.drop inner.length)
    else none
  | _ => none

theorem closing?_length {quote : Char} {cs inner rest : List Char}
    (h : closing? quote cs = some (inner, rest)) : rest.length ≤ cs.length := by
  unfold closing? at h
  split at h <;> grind

abbrev Quoted := Option (List Char × List Char)

/-- Puts a character before what is read after it. -/
def before (c : Option Char) (read : Quoted) : Quoted :=
  match c, read with
  | some c, some (cs, rest) => some (c :: cs, rest)
  | _, _ => none

/-- Text in double quotes. A backslash at the end of a line skips to the next visible character. -/
def doubleQuoted (long : Bool) : (skipping : Bool) → List Char → Quoted
  | _, [] => none
  | _, '\\' :: 'x' :: a :: b :: rest => before (codePoint? [a, b]) (doubleQuoted long false rest)
  | _, '\\' :: 'u' :: a :: b :: c :: d :: rest =>
    before (codePoint? [a, b, c, d]) (doubleQuoted long false rest)
  | _, '\\' :: 'U' :: a :: b :: c :: d :: e :: f :: g :: h :: rest =>
    before (codePoint? [a, b, c, d, e, f, g, h]) (doubleQuoted long false rest)
  | _, '\\' :: c :: rest =>
    if long && endsLine (c :: rest) then doubleQuoted long true rest
    else before (escaped? c) (doubleQuoted long false rest)
  | _, '"' :: rest =>
    if !long then some ([], rest)
    else (closing? '"' ('"' :: rest)).or (before '"' (doubleQuoted long false rest))
  | skipping, '\r' :: '\n' :: rest =>
    if !long then none
    else if skipping then doubleQuoted long true rest
    else before '\n' (doubleQuoted long false rest)
  | skipping, c :: rest =>
    if skipping && (isBlank c || c == '\n') then doubleQuoted long true rest
    else if isAllowed c || (long && c == '\n') then before c (doubleQuoted long false rest)
    else none

/-- Text in single quotes. -/
def singleQuoted (long : Bool) : List Char → Quoted
  | [] => none
  | '\'' :: rest =>
    if !long then some ([], rest)
    else (closing? '\'' ('\'' :: rest)).or (before '\'' (singleQuoted long rest))
  | '\r' :: '\n' :: rest => if long then before '\n' (singleQuoted long rest) else none
  | c :: rest =>
    if isAllowed c || (long && c == '\n') then before c (singleQuoted long rest) else none

theorem before_length {c : Option Char} {read : Quoted} {text rest : List Char} {n : Nat}
    (h : before c read = some (text, rest))
    (hread : ∀ text rest, read = some (text, rest) → rest.length ≤ n) : rest.length ≤ n := by
  unfold before at h
  split at h <;> grind

theorem doubleQuoted_length {long skipping : Bool} {cs text rest : List Char}
    (h : doubleQuoted long skipping cs = some (text, rest)) : rest.length ≤ cs.length := by
  fun_induction doubleQuoted long skipping cs generalizing text rest
  all_goals try simp only [Option.or_eq_some_iff, List.length_cons] at h ⊢
  all_goals grind [before_length, → closing?_length]

theorem singleQuoted_length {long : Bool} {cs text rest : List Char}
    (h : singleQuoted long cs = some (text, rest)) : rest.length ≤ cs.length := by
  fun_induction singleQuoted long cs generalizing text rest
  all_goals try simp only [Option.or_eq_some_iff, List.length_cons] at h ⊢
  all_goals grind [before_length, → closing?_length]

/-- Line breaks right after three opening quotes do not count. -/
def dropLineBreak : List Char → List Char
  | '\n' :: rest => rest
  | '\r' :: '\n' :: rest => rest
  | cs => cs

end Backtrack.Toml
