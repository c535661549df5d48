import Backtrack.Config.Parser
import Backtrack.Xml.Parser

/-! Messages and calls as lines of text. -/
namespace Backtrack.Cli

/-- The message's place comes before it, and its origin after it. -/
def noticeLine (label : String) (notice : Notice) : String :=
  let place := if notice.line = 0 then label else s!"{label}:{notice.line}"
  let origin := match notice.origin with
    | some origin => s!" [{origin}]"
    | none => ""
  s!"{place}: {notice.level.name}: {notice.text}{origin}"

def quoting (singleQuoted : Bool) : String :=
  if singleQuoted then "single-quoted" else "double-quoted"

def validity (valid : Bool) : String := if valid then "valid" else "invalid"

def quotedSpan (span : Span) : String := Text.quoted span.text

def assignment (key : Span) : Option Span → String
  | some value => s!"{key.text} = {quotedSpan value}"
  | none => key.text

def configLine : Config.Call → String
  | .globalKey key value => s!"global {assignment key value}"
  | .sectionName name => s!"section [{name.text}]"
  | .sectionKey key value => s!"  key {assignment key value}"
  | .done valid => s!"end of file ({validity valid})"

/-- Opening a block prints nothing. -/
def xmlLine? : Xml.Call → Option String
  | .name span => s!"name {span.text}"
  | .reference kind payload => s!"reference {kind.name} {payload.text}"
  | .comment content => s!"comment {quotedSpan content}"
  | .value span => s!"text {quotedSpan span}"
  | .attributeValueDone valid single span =>
    s!"attribute value {span.text} ({quoting single}, {validity valid})"
  | .attributeDone valid span => s!"attribute {span.text} ({validity valid})"
  | .peReference name => s!"parameter entity {name.text}"
  | .entityValueDone valid single span =>
    s!"entity value {span.text} ({quoting single}, {validity valid})"
  | .notationName name => s!"notation {name.text}"
  | .enumeration token => s!"enumeration {token.text}"
  | .enumeratedTypeDone valid span => s!"enumerated type {span.text} ({validity valid})"
  | .publicIdLiteral literal single => s!"public id {quotedSpan literal} ({quoting single})"
  | .systemLiteral literal single => s!"system literal {quotedSpan literal} ({quoting single})"
  | .externalIdDone valid span => s!"external id {span.text} ({validity valid})"
  | .encodingName name => s!"encoding {name.text}"
  | .encodingDeclDone valid single span =>
    s!"encoding declaration {span.text} ({quoting single}, {validity valid})"
  | .versionNumber single version => s!"version {version.text} ({quoting single})"
  | .standalone yes single => s!"standalone {yes} ({quoting single})"
  | .declarationDone valid span => s!"xml declaration {span.text} ({validity valid})"
  | .elementName name => s!"attribute list for {name.text}"
  | .attributeName name => s!"  attribute {name.text}"
  | .attributeType type => s!"  type {type.name}"
  | .openEnumeratedType => none
  | .defaultKind kind => s!"  default {kind.name}"
  | .openAttributeValue => none
  | .attributeListDone valid span => s!"attribute list {span.text} ({validity valid})"

/-- What a parse prints. -/
structure Transcription where
  messages : Array String := #[]
  events : Array String := #[]

namespace Transcription

def message (t : Transcription) (label : String) (notice : Notice) : Transcription × Reply :=
  ({ t with messages := t.messages.push (noticeLine label notice) }, .keep)

def configClient (label : String) : Config.Client Transcription :=
  ⟨fun _ t call => ({ t with events := t.events.push (configLine call) }, .keep),
    fun _ t notice => t.message label notice⟩

def xmlClient (label : String) : Xml.Client Transcription :=
  ⟨fun _ t call => ({ t with events := t.events ++ (xmlLine? call).toArray }, .keep),
    fun _ t notice => t.message label notice⟩

end Transcription
end Backtrack.Cli
