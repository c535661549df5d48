import Backtrack.Toml.Quote

/-! The tokens of a TOML text. Comments are left out. -/
namespace Backtrack.Toml

inductive Token where
  | newline
  | blank (c : Char)
  | dot
  | equals
  | comma
  | openBracket
  | closeBracket
  | openBrace
  | closeBrace
  /-- Quoted text; `long` text is between three quotes and cannot be a key. -/
  | quoted (text : String) (long : Bool)
  /-- A run of other characters. -/
  | bare (text : String)
  deriving DecidableEq

def punctuation? : Char → Option Token
  | '\n' => some .newline
  | ' ' => some (.blank ' ')
  | '\t' => some (.blank '\t')
  | '.' => some .dot
  | '=' => some .equals
  | ',' => some .comma
  | '[' => some .openBracket
  | ']' => some .closeBracket
  | '\x7b' => some .openBrace
  | '\x7d' => some .closeBrace
  | _ => none

def isBare (c : Char) : Bool :=
  (punctuation? c).isNone && c != '#' && c != '\r' && c != '"' && c != '\''

/-- The quoted text that a text begins with, and what follows it. -/
def quotedText? : List Char → Option ((String × Bool) × List Char)
  | '"' :: '"' :: '"' :: rest => pack true (doubleQuoted true false (dropLineBreak rest))
  | '\'' :: '\'' :: '\'' :: rest => pack true (singleQuoted true (dropLineBreak rest))
  | '"' :: rest => pack false (doubleQuoted false false rest)
  | '\'' :: rest => pack false (singleQuoted false rest)
  | _ => none
where
  pack (long : Bool) (read : Quoted) : Option ((String × Bool) × List Char) :=
    read.map fun (text, rest) => ((String.ofList text, long), rest)

theorem dropLineBreak_length (cs : List Char) : (dropLineBreak cs).length ≤ cs.length := by
  unfold dropLineBreak
  split <;> grind

theorem quotedText?_length {cs rest : List Char} {text : String × Bool}
    (h : quotedText? cs = some (text, rest)) : rest.length < cs.length := by
  unfold quotedText? quotedText?.pack at h
  split at h <;> simp only [Option.map_eq_some_iff, reduceCtorEq] at h
  all_goals
    obtain ⟨⟨t, r⟩, hr, he⟩ := h
    simp only [Prod.mk.injEq] at he
    grind [dropLineBreak_length, → doubleQuoted_length, → singleQuoted_length]

def tokens? (cs : List Char) : Option (List Token) :=
  match cs with
  | [] => some []
  | '\r' :: '\n' :: rest => (tokens? rest).map (.newline :: ·)
  | '#' :: rest =>
    let comment := rest.takeWhile fun c => c != '\n' && c != '\r'
    if comment.all isAllowed then tokens? (rest.drop comment.length) else none
  | c :: rest =>
    match punctuation? c with
    | some token => (tokens? rest).map (token :: ·)
    | none =>
      if isBare c then
        let more := rest.takeWhile isBare
        (tokens? (rest.drop more.length)).map (.bare (String.ofList (c :: more)) :: ·)
      else match h : quotedText? (c :: rest) with
        | none => none
        | some ((text, long), after) =>
          have : after.length < rest.length + 1 := quotedText?_length h
          (tokens? after).map (.quoted text long :: ·)
termination_by cs.length

end Backtrack.Toml
