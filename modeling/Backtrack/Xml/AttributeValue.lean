import Backtrack.Xml.Reference

/-! Quoted attribute values: text and references between two quotes of one kind. -/
namespace Backtrack.Xml

/-- A run of characters that begin no reference and do not close the quote. -/
def valueText (q : Quote) : XmlRule :=
  (Rule.many1 (.noneOf (.ofBytes [0x25, 0x26, q.byte]))).action .value

namespace AttributeValue

def opened : Quote → Message
  | .single => major "Attribute value has starting single-quote but no content."
  | .double => minor "Attribute value has starting double-quote but no content."

def unclosed : Quote → Message
  | .single => minor "Attribute value has no ending single-quote."
  | .double => minor "Attribute value has no ending double-quote."

def quoted (q : Quote) : XmlRule :=
  let start := (mark q).push (opened q)
  let content := (Rule.many (Reference.rule ||| valueText q)).prepare (unclosed q)
  (Rule.inOrder [start, content, mark q]).cancel.action (.attributeValue q)

def rule : XmlRule :=
  let skip := ((skipToNul.action .invalid).popAbandoned).sendNow
    (major "Unable to parse attribute value - skipping rest of content.")
  .firstOf [quoted .single, quoted .double, skip]

def partCalls (tree : Tree Action) : List Call :=
  match tree.action with
  | .value => [.value tree.span]
  | _ => Reference.calls tree

def calls (tree : Tree Action) : List Call :=
  match tree.action with
  | .attributeValue q =>
    tree.children.flatMap partCalls ++ [.attributeValueDone (isValid tree) q.isSingle tree.span]
  | _ => []

end AttributeValue
end Backtrack.Xml
