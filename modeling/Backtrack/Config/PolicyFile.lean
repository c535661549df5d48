import Backtrack.Config.Policy
import Backtrack.Files.Access
import Backtrack.Toml.Reader
import Backtrack.Toml.Writer

/-! Policies stored as TOML. Entries that are missing take their defaults, and entries with other
names are ignored. -/
namespace Backtrack.Config

open Toml (Entries Value)

def field {α : Type} (entries : Entries) (read : Value → Option α) (name : String) (default : α) :
    Option α :=
  match entries.lookup name with
  | none => some default
  | some value => read value

def text? : Value → Option String
  | .text text => some text
  | _ => none

def boolean? : Value → Option Bool
  | .boolean b => some b
  | _ => none

def natural? : Value → Option Nat
  | .integer n => if 0 ≤ n then some n.toNat else none
  | _ => none

namespace Policy

def ofEntries? (entries : Entries) : Option Policy := do
  let default : Policy := {}
  return {
    lineComment := ← field entries text? "line_comment" default.lineComment
    blockCommentStart := ← field entries text? "block_comment_start" default.blockCommentStart
    blockCommentEnd := ← field entries text? "block_comment_end" default.blockCommentEnd
    sectionStart := ← field entries text? "section_start" default.sectionStart
    sectionEnd := ← field entries text? "section_end" default.sectionEnd
    assign := ← field entries text? "assign" default.assign
    trim := ← field entries boolean? "trim" default.trim
    alnumNames := ← field entries boolean? "alnum_names" default.alnumNames
    quotedValues := ← field entries boolean? "quoted_values" default.quotedValues
    budget := ← field entries natural? "max_errors" default.budget }

def ofText? (text : String) : Option Policy := (Toml.read? text).bind ofEntries?

def toText (p : Policy) : String :=
  String.join [
    Toml.pairLine "line_comment" (Toml.textLiteral p.lineComment),
    Toml.pairLine "block_comment_start" (Toml.textLiteral p.blockCommentStart),
    Toml.pairLine "block_comment_end" (Toml.textLiteral p.blockCommentEnd),
    Toml.pairLine "section_start" (Toml.textLiteral p.sectionStart),
    Toml.pairLine "section_end" (Toml.textLiteral p.sectionEnd),
    Toml.pairLine "assign" (Toml.textLiteral p.assign),
    Toml.pairLine "trim" (toString p.trim),
    Toml.pairLine "alnum_names" (toString p.alnumNames),
    Toml.pairLine "quoted_values" (toString p.quotedValues),
    Toml.pairLine "max_errors" (toString p.budget)]

section

variable {m : Type → Type} [Monad m]

/-- Reads the policy at a path, if there is one. -/
def load (files : Files m) (path : String) : m (Except PolicyError (Option Policy)) := do
  if !(← files.isPresent path) then return .ok none
  match ← files.read path with
  | .error error => return .error (.unreadable path error.message)
  | .ok bytes =>
    match Text.strict? bytes with
    | none => return .error (.unreadable path "stream did not contain valid UTF-8")
    | some text =>
      match ofText? text with
      | none => return .error (.malformed path)
      | some policy => return policy.validate.map fun _ => some policy

/-- Writes a policy as it is, in order or not, or returns the reason why not. -/
def save (p : Policy) (files : Files m) (path : String) : m (Except String Unit) := do
  match ← files.makeParents path with
  | .error error => return .error error.message
  | .ok () =>
    if 0x8000000000000000 ≤ p.budget then return .error "out-of-range value for u64 type"
    else match ← files.write path (Text.utf8 p.toText) with
      | .error error => return .error error.message
      | .ok () => return .ok ()

end

/-- The place of the user's own policy. -/
def path (home : String) : String := Path.join (home ++ "/.config/sprig") "policy.toml"

end Policy
end Backtrack.Config
