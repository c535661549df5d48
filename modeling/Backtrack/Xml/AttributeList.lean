import Backtrack.Xml.AttributeValue
import Backtrack.Xml.EnumeratedType

/-! Attribute-list declarations. Each definition is a scope named after its attribute, so an error
in it says which attribute it belongs to. Enumerated types and default values go to receivers of
their own. -/
namespace Backtrack.Xml.AttributeList

def attributeName : XmlRule :=
  ((Name.token.action .attributeName).enterScope "attribute").prepare
    (major "Did not find attribute type within declaration.")

def attributeType : XmlRule :=
  let keyword := Rule.firstOf
    (AttributeType.keywords.map fun t => (Rule.text t.name).action (.attributeType t))
  (keyword ||| EnumeratedType.rule).prepare
    (major "Did not find default declaration for attribute declaration.")

def unfinished : Message := major "Did not find ending brace for attribute declaration."

def defaultDecl : XmlRule :=
  let word (text : String) (kind : DefaultKind) := (Rule.text text).action (Action.defaultDecl kind)
  let fixed := ((Rule.text "#FIXED" ++ spaces).action (.defaultDecl .fixed)).prepare
    (major "Did not find value for attribute declaration.")
  let justValue := Rule.empty.action (Action.defaultDecl .justValue)
  (word "#REQUIRED" .required ||| word "#IMPLIED" .implied).prepare unfinished |||
    ((fixed ||| justValue) ++ AttributeValue.rule.prepare unfinished)

def definition : XmlRule :=
  (Rule.inOrder
    [spaces, attributeName, spaces, attributeType, spaces, defaultDecl]).leaveScope

def rule : XmlRule :=
  let content := Rule.inOrder [
    Name.token.prepare (major "Did not find content for attribute declaration."),
    .many definition,
    (blank ++ char '>').cancel]
  let skip := ((skipToNul.sendNow (major "Attribute declaration has invalid format.")).pop).action
    .invalid
  ((Rule.text "<!ATTLIST" ++ spaces).push (major "Did not find name for attribute declaration.") ++
    (content ||| skip)).action .attributeList

def partItems (tree : Tree Action) : List (Item Call) :=
  match tree.action with
  | .name => [.call (.elementName tree.span)]
  | .attributeName => [.call (.attributeName tree.span)]
  | .attributeType type => [.call (.attributeType type)]
  | .enumeratedType =>
    [.call (.attributeType .enumerated), .block .openEnumeratedType (EnumeratedType.calls tree)]
  | .defaultDecl kind => [.call (.defaultKind kind)]
  | .attributeValue _ => [.block .openAttributeValue (AttributeValue.calls tree)]
  | _ => []

def items (tree : Tree Action) : List (Item Call) :=
  match tree.action with
  | .attributeList =>
    tree.children.flatMap partItems ++ [.call (.attributeListDone (isValid tree) tree.span)]
  | _ => []

end Backtrack.Xml.AttributeList
