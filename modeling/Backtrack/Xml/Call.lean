import Backtrack.Delivery
import Backtrack.Journal
import Backtrack.Xml.Action

/-! The calls on a receiver of XML constructs. -/
namespace Backtrack.Xml

inductive Call where
  | name (span : Span)
  | reference (kind : ReferenceKind) (payload : Span)
  | comment (content : Span)
  | value (span : Span)
  | attributeValueDone (valid singleQuoted : Bool) (span : Span)
  | attributeDone (valid : Bool) (span : Span)
  | peReference (name : Span)
  | entityValueDone (valid singleQuoted : Bool) (span : Span)
  | notationName (name : Span)
  | enumeration (token : Span)
  | enumeratedTypeDone (valid : Bool) (span : Span)
  | publicIdLiteral (literal : Span) (singleQuoted : Bool)
  | systemLiteral (literal : Span) (singleQuoted : Bool)
  | externalIdDone (valid : Bool) (span : Span)
  | encodingName (name : Span)
  | encodingDeclDone (valid singleQuoted : Bool) (span : Span)
  | versionNumber (singleQuoted : Bool) (version : Span)
  | standalone (yes singleQuoted : Bool)
  | declarationDone (valid : Bool) (span : Span)
  | elementName (name : Span)
  | attributeName (name : Span)
  | attributeType (type : AttributeType)
  /-- Asks for the receiver of the current attribute's enumerated type. -/
  | openEnumeratedType
  | defaultKind (kind : DefaultKind)
  /-- Asks for the receiver of the current attribute's default value. -/
  | openAttributeValue
  | attributeListDone (valid : Bool) (span : Span)

/-- No recovery rule skipped anything inside the tree. -/
def isValid (tree : Tree Action) : Bool := !tree.any (· == .invalid)

end Backtrack.Xml
