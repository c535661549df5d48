import Backtrack.Xml.AttributeValue

/-! Parameter-entity references, and entity values, which hold references of both kinds. -/
namespace Backtrack.Xml

namespace PeReference

def rule : XmlRule :=
  let start := (char '%').push (minor "Found start of PE reference, but no name.")
  let reference := (Name.token.action .peReference).prepare
    (minor "Found name for PE reference, but no ending semicolon.")
  let skip := ((skipToNul.action .invalid).sendNow
    (minor "Unable to parse name for PE reference.")).pop
  start ++ (reference ++ (char ';').cancel ||| skip)

def calls (tree : Tree Action) : List Call :=
  match tree.action with
  | .peReference => [.peReference tree.span]
  | _ => []

end PeReference

namespace EntityValue

def opened : Quote → Message
  | .single => major "Entity value has starting single-quote but no content."
  | .double => minor "Entity value has starting double-quote but no content."

def unclosed : Quote → Message
  | .single => minor "Entity value has no ending single-quote."
  | .double => minor "Entity value has no ending double-quote."

def quoted (q : Quote) : XmlRule :=
  let content := (Rule.many (.firstOf [Reference.rule, PeReference.rule, valueText q])).prepare
    (unclosed q)
  (Rule.inOrder [(mark q).push (opened q), content, mark q]).cancel.action (.entityValue q)

def rule : XmlRule :=
  let skip := ((skipToNul.action .invalid).popAbandoned).sendNow
    (major "Unable to parse entity value - skipping rest of content.")
  .firstOf [quoted .single, quoted .double, skip]

def partCalls (tree : Tree Action) : List Call :=
  match tree.action with
  | .value => [.value tree.span]
  | .peReference => PeReference.calls tree
  | _ => Reference.calls tree

def calls (tree : Tree Action) : List Call :=
  match tree.action with
  | .entityValue q =>
    tree.children.flatMap partCalls ++ [.entityValueDone (isValid tree) q.isSingle tree.span]
  | _ => []

end EntityValue
end Backtrack.Xml
