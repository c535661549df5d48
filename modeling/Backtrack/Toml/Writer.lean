import Backtrack.Text.Quoted
import Backtrack.Toml.Quote

/-! Writing TOML. Text goes between the quotes that need the fewest escapes. -/
namespace Backtrack.Toml

/-- The longest run of `c`, when `run` of them came right before. -/
def longestRun (c : Char) : (run : Nat) → List Char → Nat
  | run, [] => run
  | run, d :: rest => if d = c then longestRun c (run + 1) rest else max run (longestRun c 0 rest)

def isControl (c : Char) : Bool := !isAllowed c && c != '\n'

def pad (width : Nat) (text : String) : String :=
  String.ofList (List.replicate (width - text.length) '0') ++ text

def escapeCode (c : Char) : String :=
  match c with
  | '\x08' => "\\b"
  | '\t' => "\\t"
  | '\n' => "\\n"
  | '\x0c' => "\\f"
  | '\r' => "\\r"
  | '"' => "\\\""
  | '\\' => "\\\\"
  | c => if isControl c then "\\u" ++ pad 4 (Text.hex c.toNat).toUpper else c.toString

def escapedText (cs : List Char) : String := String.join (cs.map escapeCode)

/-- Text between three quotes. Line breaks stay, and so do two quotes in a row, of which `run` came
right before. -/
def escapedLong : (run : Nat) → List Char → String
  | _, [] => ""
  | run, '"' :: rest =>
    if run < 2 then "\"" ++ escapedLong (run + 1) rest else "\\\"" ++ escapedLong 0 rest
  | _, '\n' :: rest => "\n" ++ escapedLong 0 rest
  | _, c :: rest => escapeCode c ++ escapedLong 0 rest

def textLiteral (text : String) : String :=
  let cs := text.toList
  let control := cs.any isControl
  let lines := cs.contains '\n'
  let backslash := cs.contains '\\'
  let lineBreak := if lines then "\n" else ""
  let long := "\"\"\"" ++ lineBreak ++ escapedLong 0 cs ++ "\"\"\""
  if !control && !lines && !backslash && longestRun '"' 0 cs = 0 then
    "\"" ++ escapedText cs ++ "\""
  else if !control && !lines && longestRun '\'' 0 cs = 0 then "'" ++ text ++ "'"
  else if !control && !backslash && longestRun '"' 0 cs ≤ 2 then long
  else if !control && longestRun '\'' 0 cs ≤ 2 then "'''" ++ lineBreak ++ text ++ "'''"
  else if lines then long
  else "\"" ++ escapedText cs ++ "\""

/-- One line of a document. -/
def pairLine (key literal : String) : String := key ++ " = " ++ literal ++ "\n"

end Backtrack.Toml
