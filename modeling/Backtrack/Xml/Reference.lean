import Backtrack.Xml.Name

/-! References. The payload of a reference is its name, or its digits without the signs in front. -/
namespace Backtrack.Xml.Reference

def hex : XmlRule :=
  (Rule.text "#x").prepare (minor "Found '&#x' for start of hexdigit reference, but no hexdigits.") ++
  ((Rule.many1 (.set hexDigit)).action (.reference .hexDigits)).prepare
    (minor "Found numbers for hexdigit reference but no ending semicolon.")

def digits : XmlRule :=
  (char '#').prepare (minor "Found '&#' for start of digit reference, but no digits.") ++
  ((Rule.many1 (.set .digit)).action (.reference .digits)).prepare
    (minor "Found numbers for digits reference but no ending semicolon.")

def entity : XmlRule :=
  (Name.token.action (.reference .entity)).prepare
    (minor "Found name for entity reference but no ending semicolon.")

def rule : XmlRule :=
  let start := (char '&').push (minor "Found start of reference, but not rest of its content.")
  let skip := (skipToNul.action .invalid).pop.sendNow
    (minor "Unable to parse reference - skipping rest of content.")
  start ++ (Rule.firstOf [hex, digits, entity] ++ (char ';').cancel ||| skip)

def calls (tree : Tree Action) : List Call :=
  match tree.action with
  | .reference kind => [.reference kind tree.span]
  | _ => []

end Backtrack.Xml.Reference
