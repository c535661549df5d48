import Backtrack.Driver

/-! The delimiters and switches that a config grammar is built from. A policy is in order when no
delimiter is empty and no two are equal. -/
namespace Backtrack.Config

structure Policy where
  lineComment : String := ";"
  blockCommentStart : String := "/*"
  blockCommentEnd : String := "*/"
  sectionStart : String := "["
  sectionEnd : String := "]"
  assign : String := "="
  /-- Strip blanks around names, keys and unquoted values. -/
  trim : Bool := false
  /-- Names and keys are letters, digits and underscores, and do not begin with a digit. -/
  alnumNames : Bool := false
  /-- Values may be quoted, and then hold comment delimiters. -/
  quotedValues : Bool := false
  budget : Nat := defaultBudget
  deriving DecidableEq

inductive PolicyError where
  | emptyDelimiter (field : String)
  | delimiterCollision (first second delimiter : String)
  | unreadable (path reason : String)
  | malformed (path : String)
  deriving DecidableEq

def PolicyError.message : PolicyError → String
  | emptyDelimiter field => s!"The {field} delimiter is empty"
  | delimiterCollision first second delimiter =>
    s!"The {first} and {second} delimiters are both {Text.quoted delimiter}"
  | unreadable path reason => s!"Failed to read policy file at {path}: {reason}"
  | malformed path => s!"Failed to parse policy file at {path}"

namespace Policy

/-- Each delimiter with the name it is reported under. -/
def delimiters (p : Policy) : List (String × String) :=
  [("line comment", p.lineComment),
    ("block comment start", p.blockCommentStart),
    ("block comment end", p.blockCommentEnd),
    ("section start", p.sectionStart),
    ("section end", p.sectionEnd),
    ("assignment", p.assign)]

def collision? : List (String × String) → Option PolicyError
  | [] => none
  | (first, delimiter) :: rest =>
    match rest.find? (·.2 == delimiter) with
    | some (second, _) => some (.delimiterCollision first second delimiter)
    | none => collision? rest

/-- Empty delimiters are reported before collisions, and the earliest of each kind first. -/
def error? (p : Policy) : Option PolicyError :=
  match p.delimiters.find? (·.2.isEmpty) with
  | some (field, _) => some (.emptyDelimiter field)
  | none => collision? p.delimiters

def validate (p : Policy) : Except PolicyError Unit :=
  match p.error? with
  | some error => .error error
  | none => .ok ()

end Policy
end Backtrack.Config
