import Backtrack.Xml.Call
import Backtrack.Xml.Chars

/-! Names. `rule` parses a name on its own; `token` is the bare match that other constructs embed,
where a missing name just fails the alternative. -/
namespace Backtrack.Xml.Name

def token : XmlRule :=
  (Rule.set firstNameChar ++ Rule.many (.set nameChar)).action .name

def rule : XmlRule :=
  let first := (Rule.set firstNameChar).push (minor "Name has invalid first character.")
  let rest := (Rule.many (.set nameChar)).prepare (minor "Could not parse rest of name.")
  let skip := ((skipToNul.action .invalid).sendNow
    (minor "Name has an invalid character.")).popAbandoned
  (first ++ rest).cancel.action .name ||| skip

def calls (tree : Tree Action) : List Call :=
  match tree.action with
  | .name => [.name tree.span]
  | _ => []

end Backtrack.Xml.Name
