import Backtrack.Rule
import Backtrack.Xml.Action

/-! Byte classes and small rules of the XML grammars. Bytes from 0x80 on stand for Latin-1
letters. -/
namespace Backtrack.Xml

def whitespace : CharSet := .ofBytes (Text.utf8 " \t\r\n")

def letter : CharSet :=
  .alpha ∪ .range 0xC0 0xD6 ∪ .range 0xD8 0xF6 ∪ .range 0xF8 0xFF

def firstNameChar : CharSet := letter ∪ .ofBytes (Text.utf8 "_:")

def nameChar : CharSet := letter ∪ .digit ∪ .ofBytes (0xB7 :: Text.utf8 ".-_:")

def hexDigit : CharSet := .parse (Text.utf8 "0-9a-fA-F")

def publicIdChar : CharSet := .alnum ∪ .ofBytes (Text.utf8 " \r\n'()+,./:=?;!*#@$_%-")

def versionChar : CharSet := .alnum ∪ .ofBytes (Text.utf8 "_.:-")

def encodingRest : CharSet := .alnum ∪ .ofBytes (Text.utf8 "._-")

/-- The tag on every message of the XML grammars. -/
def origin : String := "xml"

def minor (text : String) : Message := (Message.minor text).withOrigin origin
def major (text : String) : Message := (Message.major text).withOrigin origin

abbrev XmlRule := Rule Action

def char (c : Char) : XmlRule := .byte (UInt8.ofNat c.toNat)

def spaces : XmlRule := .many1 (.set whitespace)

def blank : XmlRule := .optional spaces

/-- An equal sign with whitespace on either side. -/
def equals : XmlRule := blank ++ char '=' ++ blank

def mark (q : Quote) : XmlRule := .byte q.byte

/-- Recovery up to a NUL. Malformed input without one fails to parse. -/
def skipToNul : XmlRule := .skipTo (.ofBytes [0])

/-- Recovery through the next quote of the same kind. -/
def skipToQuote (q : Quote) : XmlRule := .skipTo (.ofBytes [q.byte])

end Backtrack.Xml
