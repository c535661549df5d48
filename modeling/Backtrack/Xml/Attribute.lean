import Backtrack.Xml.AttributeValue

/-! Attributes: a name, an equal sign and a quoted value. -/
namespace Backtrack.Xml.Attribute

def rule : XmlRule :=
  let whole := Rule.inOrder [
    Name.token.push (minor "Found name but no equal sign for attribute."),
    equals.prepare (minor "Found equal sign but not value in attribute."),
    AttributeValue.rule]
  let skip := ((skipToNul.action .invalid).popAbandoned).sendNow
    (major "Unable to parse attribute - skipping rest of content.")
  whole.cancel.action .attr ||| skip

def partCalls (tree : Tree Action) : List Call :=
  match tree.action with
  | .name => Name.calls tree
  | _ => AttributeValue.calls tree

def calls (tree : Tree Action) : List Call :=
  match tree.action with
  | .attr => tree.children.flatMap partCalls ++ [.attributeDone (isValid tree) tree.span]
  | _ => []

end Backtrack.Xml.Attribute
