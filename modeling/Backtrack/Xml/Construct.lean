import Backtrack.Xml.Attribute
import Backtrack.Xml.AttributeList
import Backtrack.Xml.Comment
import Backtrack.Xml.Declaration
import Backtrack.Xml.Entity

/-! The XML constructs that are parsed on their own, each with its root rule and the calls that its
journal stands for. -/
namespace Backtrack.Xml

inductive Construct where
  | name
  | reference
  | comment
  | attributeValue
  | attr
  | entityValue
  | peReference
  | enumeratedType
  | publicId
  | externalId
  | encoding
  | declaration
  | attributeList
  deriving DecidableEq

namespace Construct

def all : List Construct :=
  [name, reference, comment, attributeValue, attr, entityValue, peReference, enumeratedType,
    publicId, externalId, encoding, declaration, attributeList]

def label : Construct → String
  | name => "name"
  | reference => "reference"
  | comment => "comment"
  | attributeValue => "attribute-value"
  | attr => "attribute"
  | entityValue => "entity-value"
  | peReference => "pe-reference"
  | enumeratedType => "enumerated-type"
  | publicId => "public-id"
  | externalId => "external-id"
  | encoding => "encoding"
  | declaration => "xml-declaration"
  | attributeList => "att-list-decl"

def rule : Construct → XmlRule
  | name => Name.rule
  | reference => Reference.rule
  | comment => Comment.rule
  | attributeValue => AttributeValue.rule
  | attr => Attribute.rule
  | entityValue => EntityValue.rule
  | peReference => PeReference.rule
  | enumeratedType => EnumeratedType.rule
  | publicId => PublicId.rule
  | externalId => ExternalId.rule
  | encoding => EncodingDecl.rule
  | declaration => Declaration.rule
  | attributeList => AttributeList.rule

/-- The calls for one tree of the journal. -/
def items (construct : Construct) (tree : Tree Action) : List (Item Call) :=
  match construct with
  | name => (Name.calls tree).map .call
  | reference => (Reference.calls tree).map .call
  | comment => (Comment.calls tree).map .call
  | attributeValue => (AttributeValue.calls tree).map .call
  | attr => (Attribute.calls tree).map .call
  | entityValue => (EntityValue.calls tree).map .call
  | peReference => (PeReference.calls tree).map .call
  | enumeratedType => (EnumeratedType.calls tree).map .call
  | publicId => (PublicId.calls tree).map .call
  | externalId => (ExternalId.calls tree).map .call
  | encoding => (EncodingDecl.calls tree).map .call
  | declaration => (Declaration.calls tree).map .call
  | attributeList => AttributeList.items tree

end Construct
end Backtrack.Xml
