import Backtrack.Xml.Call
import Backtrack.Xml.Chars

/-! External identifiers: `SYSTEM` and a system literal, or `PUBLIC`, a public-id literal and a
system literal. A malformed literal is skipped through the next quote of its kind. -/
namespace Backtrack.Xml

def Quote.word : Quote → String
  | single => "single"
  | double => "double"

/-- A literal that begins with `q`, whose content is recognised by `content` and journaled. -/
def literal (q : Quote) (kind : String) (content : XmlRule) (action : Action) : XmlRule :=
  let opened := major s!"Found starting {q.word} quote but no content for {kind}."
  let unclosed := major s!"Did not find ending {q.word}-quote for {kind}."
  let skipped := major s!"Unable to parse {q.word}-quoted {kind} - skipping rest of content."
  let skip := ((skipToQuote q).action .invalid).pop.sendNow skipped
  (mark q).push opened ++ ((content.action action).prepare unclosed ++ (mark q).cancel ||| skip)

namespace PublicId

def quoted (q : Quote) : XmlRule :=
  literal q "public identifier literal" (.many (.set (publicIdChar \ .ofBytes [q.byte])))
    (.publicIdLiteral q)

def rule : XmlRule := quoted .single ||| quoted .double

def calls (tree : Tree Action) : List Call :=
  match tree.action with
  | .publicIdLiteral q => [.publicIdLiteral tree.span q.isSingle]
  | _ => []

end PublicId

namespace ExternalId

def systemLiteral (q : Quote) : XmlRule :=
  literal q "system literal" (.many (.noneOf (.ofBytes [q.byte]))) (.systemLiteral q)

def separator : XmlRule :=
  spaces.prepare (minor "Expected to find quoted public-id or system literal.")

def rule : XmlRule :=
  let publicId := Rule.inOrder [
    (Rule.text "PUBLIC").push (minor "Found start of public literal, but no contents."),
    separator,
    PublicId.rule.prepare
      (minor "Expected to find white space between public ID and system literals.")]
  let system := (Rule.text "SYSTEM").push
    (minor "Found start of system literal, but no contents.")
  let skip := ((skipToNul.action .invalid).sendNow
    (major "Unable to parse external ID reference.")).pop
  let body := separator ++ (systemLiteral .single ||| systemLiteral .double).cancel ||| skip
  ((publicId ||| system) ++ body).action .externalId

def partCalls (tree : Tree Action) : List Call :=
  match tree.action with
  | .systemLiteral q => [.systemLiteral tree.span q.isSingle]
  | _ => PublicId.calls tree

def calls (tree : Tree Action) : List Call :=
  match tree.action with
  | .externalId => tree.children.flatMap partCalls ++ [.externalIdDone (isValid tree) tree.span]
  | _ => []

end ExternalId
end Backtrack.Xml
