import Backtrack.Xml.Name

/-! Enumerated attribute types: a list of notations, or a list of tokens. -/
namespace Backtrack.Xml.EnumeratedType

def delimiter : XmlRule :=
  (Rule.inOrder [blank, char '|', blank]).prepare (major "Did not find name after '|' delimiter.")

def close : XmlRule := (blank ++ char ')').cancel

def notationName : XmlRule :=
  (Name.token.action .notationName).prepare
    (major "Did not find '|' delimiter or ending parenthesis ')' after name in notation.")

def notations : XmlRule := .inOrder [
  (Rule.text "NOTATION").push (major "Did not find starting parenthesis for notation."),
  (Rule.inOrder [blank, char '(', blank]).prepare (major "Did not find content for notation."),
  notationName,
  .many (delimiter ++ notationName),
  close]

def token : XmlRule :=
  ((Rule.many1 (.set nameChar)).action .enumeration).prepare
    (major "Did not find '|' delimiter or ending parenthesis ')' after name in enumeration.")

def enumeration : XmlRule := .inOrder [
  (char '(' ++ blank).push (major "Did not find content for enumeration."),
  token,
  .many (delimiter ++ token),
  close]

def rule : XmlRule :=
  let skip := ((skipToNul.action .invalid).popAbandoned).sendNow
    (major "Unable to parse enumerated type - skipping rest of content.")
  (Rule.firstOf [notations, enumeration, skip]).action .enumeratedType

def partCalls (tree : Tree Action) : List Call :=
  match tree.action with
  | .notationName => [.notationName tree.span]
  | .enumeration => [.enumeration tree.span]
  | _ => []

def calls (tree : Tree Action) : List Call :=
  match tree.action with
  | .enumeratedType =>
    tree.children.flatMap partCalls ++ [.enumeratedTypeDone (isValid tree) tree.span]
  | _ => []

end Backtrack.Xml.EnumeratedType
