import Backtrack.Xml.Call
import Backtrack.Xml.Chars

/-! Comments. The content may hold single dashes but no two in a row. -/
namespace Backtrack.Xml.Comment

def plain : XmlRule := .set (.printable \ .ofBytes [0x2D] ∪ whitespace)

def content : XmlRule := (Rule.many (plain ||| (char '-' ++ plain))).action .comment

def rule : XmlRule :=
  let start := (Rule.text "<!--").push (minor "Found start of comment, but not end of comment.")
  let skip := ((skipToNul.action .invalid).sendNow (minor "Comment has invalid format.")).pop
  start ++ (content ++ (Rule.text "-->").cancel ||| skip)

def calls (tree : Tree Action) : List Call :=
  match tree.action with
  | .comment => [.comment tree.span]
  | _ => []

end Backtrack.Xml.Comment
