import Backtrack.Proofs.Telling
import Backtrack.Xml.Construct

/-! Attribute-list declarations as they are written, with their whitespace. The parts carry the
classes of their bytes, so everything that can be built here is printed as a declaration. Read, a
declaration says its parts in order, each with the span where it stands. -/
namespace Backtrack.Xml

/-- Bytes of one class. -/
structure Run (s : CharSet) where
  bytes : Bytes
  inside : ∀ c ∈ bytes, s.contains c = true

/-- At least one byte of a class. -/
structure Word (s : CharSet) extends Run s where
  filled : bytes ≠ []

/-- Whitespace, or nothing. -/
abbrev Gap := Run whitespace

abbrev Space := Word whitespace

abbrev TokenText := Word nameChar

structure NameText where
  first : UInt8
  later : Run nameChar
  begins : firstNameChar.contains first = true

def NameText.bytes (name : NameText) : Bytes := name.first :: name.later.bytes

inductive ReferenceText where
  | entity (name : NameText)
  | digits (number : Word .digit)
  | hexDigits (number : Word hexDigit)

namespace ReferenceText

def kind : ReferenceText → ReferenceKind
  | entity _ => .entity
  | digits _ => .digits
  | hexDigits _ => .hexDigits

def payload : ReferenceText → Bytes
  | entity name => name.bytes
  | digits number | hexDigits number => number.bytes

/-- The signs in front of the payload. -/
def sign : ReferenceText → Bytes
  | entity _ => Text.utf8 "&"
  | digits _ => Text.utf8 "&#"
  | hexDigits _ => Text.utf8 "&#x"

def print (r : ReferenceText) : Bytes := r.sign ++ r.payload ++ Text.utf8 ";"

end ReferenceText

/-- What may stand in a value as it is. -/
def plainIn (q : Quote) : CharSet := ~~~CharSet.ofBytes [0x25, 0x26, q.byte]

/-- Plain text, and references each with the plain text behind it. -/
structure ContentText (s : CharSet) where
  first : Run s
  others : List (ReferenceText × Run s)

structure ValueText where
  quote : Quote
  content : ContentText (plainIn quote)

/-- Alternatives between parentheses, each but the first behind a bar with a gap on either side. -/
structure Choices (δ : Type) where
  before : Gap
  first : δ
  others : List (Gap × Gap × δ)
  after : Gap

inductive TypeText where
  | keyword (type : AttributeType) (named : type ∈ AttributeType.keywords)
  | notations (gap : Gap) (names : Choices NameText)
  | enumeration (tokens : Choices TokenText)

inductive DefaultText where
  | required
  | implied
  /-- A value, behind `#FIXED` if there is a space. -/
  | value (fixed : Option Space) (value : ValueText)

structure DefinitionText where
  beforeName : Space
  name : NameText
  beforeType : Space
  type : TypeText
  beforeDefault : Space
  default : DefaultText

structure DeclarationText where
  beforeName : Space
  name : NameText
  definitions : List DefinitionText
  after : Gap

section Printing

variable {s : CharSet} {δ : Type}

def ContentText.printOther (other : ReferenceText × Run s) : Bytes :=
  other.1.print ++ other.2.bytes

def ContentText.print (content : ContentText s) : Bytes :=
  content.first.bytes ++ content.others.flatMap printOther

def ValueText.print (v : ValueText) : Bytes := [v.quote.byte] ++ v.content.print ++ [v.quote.byte]

def Choices.printOther (text : δ → Bytes) (other : Gap × Gap × δ) : Bytes :=
  other.1.bytes ++ Text.utf8 "|" ++ other.2.1.bytes ++ text other.2.2

def Choices.print (text : δ → Bytes) (choices : Choices δ) : Bytes :=
  Text.utf8 "(" ++ choices.before.bytes ++ text choices.first ++
    choices.others.flatMap (printOther text) ++ choices.after.bytes ++ Text.utf8 ")"

def TypeText.print : TypeText → Bytes
  | keyword type _ => Text.utf8 type.name
  | notations gap names => Text.utf8 "NOTATION" ++ gap.bytes ++ names.print NameText.bytes
  | enumeration tokens => tokens.print (·.bytes)

def DefaultText.print : DefaultText → Bytes
  | required => Text.utf8 "#REQUIRED"
  | implied => Text.utf8 "#IMPLIED"
  | value none v => v.print
  | value (some gap) v => Text.utf8 "#FIXED" ++ gap.bytes ++ v.print

def DefinitionText.print (d : DefinitionText) : Bytes :=
  d.beforeName.bytes ++ d.name.bytes ++ d.beforeType.bytes ++ d.type.print ++
    d.beforeDefault.bytes ++ d.default.print

def DeclarationText.print (d : DeclarationText) : Bytes :=
  Text.utf8 "<!ATTLIST" ++ d.beforeName.bytes ++
    (d.name.bytes ++ d.definitions.flatMap DefinitionText.print ++
      (d.after.bytes ++ Text.utf8 ">"))

end Printing

section Saying

variable (source : Source) {s : CharSet} {δ : Type}

/-- Plain text is said unless there is none. -/
def Run.calls (run : Run s) (pos : Nat) : List Call :=
  if run.bytes = [] then [] else [.value (.ofText source pos run.bytes)]

def ReferenceText.call (r : ReferenceText) (pos : Nat) : Call :=
  .reference r.kind (.ofText source (pos + r.sign.length) r.payload)

def ContentText.calls (content : ContentText s) (pos : Nat) : List Call :=
  content.first.calls source pos ++
    spread printOther
      (fun other pos =>
        other.1.call source pos :: other.2.calls source (pos + other.1.print.length))
      content.others (pos + content.first.bytes.length)

/-- The block of a value. -/
def ValueText.calls (v : ValueText) (pos : Nat) : List Call :=
  v.content.calls source (pos + 1) ++
    [.attributeValueDone true v.quote.isSingle (.ofText source pos v.print)]

/-- The alternatives, each as this call on its span. -/
def Choices.calls (text : δ → Bytes) (one : Span → Call) (choices : Choices δ) (pos : Nat) :
    List Call :=
  let first := pos + 1 + choices.before.bytes.length
  one (.ofText source first (text choices.first)) ::
    spread (printOther text)
      (fun other pos =>
        [one (.ofText source (pos + other.1.bytes.length + 1 + other.2.1.bytes.length)
          (text other.2.2))])
      choices.others (first + (text choices.first).length)

/-- The block of a type that lists alternatives. -/
def TypeText.calls (t : TypeText) (pos : Nat) : List Call :=
  match t with
  | keyword _ _ => []
  | notations gap names =>
    names.calls source NameText.bytes .notationName
      (pos + (Text.utf8 "NOTATION").length + gap.bytes.length) ++
      [.enumeratedTypeDone true (.ofText source pos t.print)]
  | enumeration tokens =>
    tokens.calls source (·.bytes) .enumeration pos ++
      [.enumeratedTypeDone true (.ofText source pos t.print)]

def TypeText.items (t : TypeText) (pos : Nat) : List (Item Call) :=
  match t with
  | keyword type _ => [.call (.attributeType type)]
  | notations _ _ | enumeration _ =>
    [.call (.attributeType .enumerated), .block .openEnumeratedType (t.calls source pos)]

def DefaultText.items (pos : Nat) : DefaultText → List (Item Call)
  | required => [.call (.defaultKind .required)]
  | implied => [.call (.defaultKind .implied)]
  | value none v =>
    [.call (.defaultKind .justValue), .block .openAttributeValue (v.calls source pos)]
  | value (some gap) v =>
    [.call (.defaultKind .fixed), .block .openAttributeValue
      (v.calls source (pos + (Text.utf8 "#FIXED").length + gap.bytes.length))]

def DefinitionText.items (d : DefinitionText) (pos : Nat) : List (Item Call) :=
  let name := pos + d.beforeName.bytes.length
  let type := name + d.name.bytes.length + d.beforeType.bytes.length
  let default := type + d.type.print.length + d.beforeDefault.bytes.length
  .call (.attributeName (.ofText source name d.name.bytes)) ::
    (d.type.items source type ++ d.default.items source default)

/-- The calls for a declaration that begins at the position, those for types and values that are
delivered in blocks of their own being kept together. -/
def DeclarationText.items (d : DeclarationText) (pos : Nat) : List (Item Call) :=
  let name := pos + (Text.utf8 "<!ATTLIST").length + d.beforeName.bytes.length
  .call (.elementName (.ofText source name d.name.bytes)) ::
    (spread DefinitionText.print (DefinitionText.items source) d.definitions
        (name + d.name.bytes.length) ++
      [.call (.attributeListDone true (.ofText source pos d.print))])

end Saying

end Backtrack.Xml
