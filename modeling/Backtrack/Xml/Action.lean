/-! What the matched parts of an XML construct mean. A construct's action wraps the whole construct
and the parts are its children; `invalid` marks content that a recovery rule skipped. -/
namespace Backtrack.Xml

inductive Quote where
  | single
  | double
  deriving DecidableEq

namespace Quote

def all : List Quote := [single, double]

def byte : Quote → UInt8
  | single => 0x27
  | double => 0x22

def isSingle (q : Quote) : Bool := q == single

def label : Quote → String
  | single => "Single"
  | double => "Double"

end Quote

/-- The forms `&name;`, `&#123;` and `&#x1F;`. -/
inductive ReferenceKind where
  | entity
  | digits
  | hexDigits
  deriving DecidableEq

namespace ReferenceKind

def all : List ReferenceKind := [entity, digits, hexDigits]

def name : ReferenceKind → String
  | entity => "entity"
  | digits => "digits"
  | hexDigits => "hexdigits"

def label : ReferenceKind → String
  | entity => "Entity"
  | digits => "Digits"
  | hexDigits => "HexDigits"

end ReferenceKind

inductive AttributeType where
  | cdata
  | id
  | idRef
  | idRefs
  | entity
  | entities
  | nmToken
  | nmTokens
  /-- One of a list of notations or tokens. -/
  | enumerated
  deriving DecidableEq

namespace AttributeType

def all : List AttributeType :=
  [cdata, id, idRef, idRefs, entity, entities, nmToken, nmTokens, enumerated]

/-- The types that a keyword names. A keyword comes before those that begin it. -/
def keywords : List AttributeType :=
  [idRefs, idRef, id, entities, entity, nmTokens, nmToken, cdata]

def name : AttributeType → String
  | cdata => "CDATA"
  | id => "ID"
  | idRef => "IDREF"
  | idRefs => "IDREFS"
  | entity => "ENTITY"
  | entities => "ENTITIES"
  | nmToken => "NMTOKEN"
  | nmTokens => "NMTOKENS"
  | enumerated => "Enumerated"

def label : AttributeType → String
  | cdata => "CData"
  | id => "Id"
  | idRef => "IdRef"
  | idRefs => "IdRefs"
  | entity => "Entity"
  | entities => "Entities"
  | nmToken => "NmToken"
  | nmTokens => "NmTokens"
  | enumerated => "Enumerated"

end AttributeType

inductive DefaultKind where
  | required
  | implied
  | fixed
  | justValue
  deriving DecidableEq

namespace DefaultKind

def all : List DefaultKind := [required, implied, fixed, justValue]

def name : DefaultKind → String
  | required => "Required"
  | implied => "Implied"
  | fixed => "Fixed"
  | justValue => "JustValue"

end DefaultKind

inductive Action where
  | name
  | comment
  /-- The name or the digits of a reference. -/
  | reference (kind : ReferenceKind)
  | peReference
  /-- A run of literal characters of a quoted value. -/
  | value
  | attributeValue (quote : Quote)
  | attr
  | entityValue (quote : Quote)
  | notationName
  | enumeration
  | enumeratedType
  | publicIdLiteral (quote : Quote)
  | systemLiteral (quote : Quote)
  | externalId
  | quote (quote : Quote)
  | encodingName
  | encodingDecl
  | versionNumber (quote : Quote)
  | standalone (yes : Bool) (quote : Quote)
  | declaration
  | attributeName
  | attributeType (type : AttributeType)
  | defaultDecl (kind : DefaultKind)
  | attributeList
  | invalid
  deriving DecidableEq

def Action.render : Action → String
  | name => "Name"
  | comment => "Comment"
  | reference kind => s!"Reference({kind.label})"
  | peReference => "PeReference"
  | value => "Value"
  | attributeValue q => s!"AttributeValue({q.label})"
  | attr => "Attribute"
  | entityValue q => s!"EntityValue({q.label})"
  | notationName => "Notation"
  | enumeration => "Enumeration"
  | enumeratedType => "EnumeratedType"
  | publicIdLiteral q => s!"PublicIdLiteral({q.label})"
  | systemLiteral q => s!"SystemLiteral({q.label})"
  | externalId => "ExternalId"
  | quote q => s!"Quote({q.label})"
  | encodingName => "EncName"
  | encodingDecl => "EncodingDecl"
  | versionNumber q => s!"VersionNumber({q.label})"
  | standalone yes q =>
    "Standalone \x7b yes: " ++ toString yes ++ ", quote: " ++ q.label ++ " \x7d"
  | declaration => "XmlDeclaration"
  | attributeName => "AttName"
  | attributeType type => s!"AttType({type.label})"
  | defaultDecl kind => s!"DefaultDecl({kind.name})"
  | attributeList => "AttListDecl"
  | invalid => "Invalid"

end Backtrack.Xml
