import Backtrack.Xml.ExternalId

/-! Encoding declarations and the XML declaration with its version, its optional encoding and its
optional standalone flag. -/
namespace Backtrack.Xml

namespace EncodingDecl

def quoted (q : Quote) : XmlRule :=
  let letters := Rule.set .alpha ++ Rule.many (.set encodingRest)
  let name := (letters.action Action.encodingName).prepare
    (major "Did not find ending quote for encoding.")
  let skip := ((skipToQuote q).action .invalid).pop.sendNow
    (major s!"Unable to parse {q.word}-quoted encoding - skipping rest of content.")
  ((mark q).action (.quote q)).prepare
    (major s!"Found starting {q.word} quote but no content for encoding.") ++
  (name ++ (mark q).cancel ||| skip)

def rule : XmlRule :=
  let value := equals.prepare (major "Did not find name for encoding.") ++
    (quoted .double ||| quoted .single)
  let skip := ((skipToNul.action .invalid).sendNow (minor "Encoding has invalid format.")).pop
  ((Rule.text "encoding").push (minor "Did not find equal sign for encoding.") ++
    (value ||| skip)).action .encodingDecl

def partCalls (tree : Tree Action) : List Call :=
  match tree.action with
  | .encodingName => [.encodingName tree.span]
  | _ => []

/-- The kind of the last quote entered in the journal. -/
def singleQuoted (parts : List (Tree Action)) : Bool :=
  parts.foldl (fun single part =>
    match part.action with
    | .quote q => q.isSingle
    | _ => single) false

def calls (tree : Tree Action) : List Call :=
  match tree.action with
  | .encodingDecl => tree.children.flatMap partCalls ++
    [.encodingDeclDone (isValid tree) (singleQuoted tree.children) tree.span]
  | _ => []

end EncodingDecl

namespace Declaration

def versionQuoted (q : Quote) : XmlRule :=
  let number := ((Rule.many1 (.set versionChar)).action (Action.versionNumber q)).prepare
    (major "Expected ending quote after version number in xml declaration.")
  let skip := ((skipToQuote q).action .invalid).pop.sendNow
    (major s!"Unable to parse {q.word}-quoted version number - skipping rest of content.")
  (mark q).push (major s!"Found starting {q.word} quote but no content for version number.") ++
  (number ++ (mark q).cancel ||| skip)

def version : XmlRule := .inOrder [
  (spaces ++ Rule.text "version").prepare
    (major "Found version keyword but no equal sign in xml declaration."),
  (char '=').prepare
    (major "Expected version number in single or double quotes after equal sign in xml declaration."),
  versionQuoted .single ||| versionQuoted .double]

def standaloneValue (yes : Bool) (q : Quote) : XmlRule :=
  (Rule.literal (q.byte :: Text.utf8 (if yes then "yes" else "no") ++ [q.byte])).action
    (.standalone yes q)

def standalone : XmlRule := .inOrder [
  (spaces ++ Rule.text "standalone").prepare (major "Found standalone keyword but no equal sign."),
  (char '=').prepare (major "Found equal sign for standalone declaration but no value."),
  .firstOf [
    standaloneValue true .single,
    standaloneValue true .double,
    standaloneValue false .single,
    standaloneValue false .double]]

def rule : XmlRule :=
  let body := Rule.inOrder [
    version,
    .optional (spaces ++ EncodingDecl.rule),
    .optional standalone,
    blank,
    (Rule.text "?>").cancel]
  let skip := ((skipToNul.action .invalid).sendNow
    (minor "Unable to parse xml declaration.")).pop
  ((Rule.text "<?xml").push (major "Found start of XML declaration, but no content.") ++
    (body ||| skip)).action .declaration

def partCalls (tree : Tree Action) : List Call :=
  match tree.action with
  | .versionNumber q => [.versionNumber q.isSingle tree.span]
  | .standalone yes q => [.standalone yes q.isSingle]
  | _ => EncodingDecl.calls tree

def calls (tree : Tree Action) : List Call :=
  match tree.action with
  | .declaration => tree.children.flatMap partCalls ++ [.declarationDone (isValid tree) tree.span]
  | _ => []

end Declaration
end Backtrack.Xml
