import Backtrack.Config.Policy
import Backtrack.Rule

/-! The grammar of config files: sections, keys and comments, a line at a time. Names, values and
block comments are printable ASCII, so a tab or a line break ends them. A malformed section header
or block comment is skipped to the end of its line, an unclosed quote to the end of the value, and
any other line that no rule recognises as a whole; each of these leaves a mark in the journal. -/
namespace Backtrack.Config

inductive Action where
  | key
  | value
  /-- The content of a quoted value, without the quotes. -/
  | quotedValue
  | unclosedQuote
  /-- A key with its optional value, which are its children. -/
  | keyValue
  | sectionName
  /-- Left by the recovery rules. -/
  | invalid
  deriving DecidableEq

def Action.render : Action → String
  | key => "Key"
  | value => "Value"
  | quotedValue => "QuotedValue"
  | unclosedQuote => "UnclosedQuote"
  | keyValue => "KeyValue"
  | sectionName => "SectionName"
  | invalid => "Invalid"

abbrev ConfigRule := Rule Action

/-- The label of section scopes. -/
def sectionScope : String := "config"

namespace Grammar

def text : ConfigRule := .set .printable

def blanks : ConfigRule := .many (.set .blank)

def endOfLine : ConfigRule := .optional (.byte 0x0D) ++ .byte 0x0A

def alnumName : ConfigRule :=
  let underscore := CharSet.ofBytes [0x5F]
  .set (.alpha ∪ underscore) ++ .many (.set (.alnum ∪ underscore))

def quoteMark : ConfigRule := .byte 0x22

def lineComment (p : Policy) : ConfigRule :=
  .text p.lineComment ++ .many text ++ (endOfLine ||| .endOfInput)

def blockComment (p : Policy) : ConfigRule :=
  let content := (Rule.many (text \ .text p.blockCommentEnd)).prepare
    (.major "Found comment, but no end of comment.")
  let skip := (Rule.many text).pop.action .invalid
  (Rule.text p.blockCommentStart).push
    (.major "Found start of comment, but no comment content.") ++
  (blanks ++ content ++ (Rule.text p.blockCommentEnd).cancel ||| skip)

def assignment (p : Policy) : ConfigRule := blanks ++ .text p.assign ++ blanks

def bareValue (p : Policy) : ConfigRule :=
  (Rule.many (text \ (.text p.blockCommentStart ||| .text p.lineComment))).action .value

def value (p : Policy) : ConfigRule :=
  let quoted := (Rule.many (.set (.printable \ .ofBytes [0x22]))).action .quotedValue ++ quoteMark
  let unclosed := ((Rule.many text).sendNow
    (.major "Could not find ending quote for value.")).action .unclosedQuote
  if p.quotedValues then quoteMark ++ (quoted ||| unclosed) ||| bareValue p else bareValue p

def key (p : Policy) : ConfigRule :=
  if p.alnumNames then alnumName
  else .many1 (text \ (.text p.sectionStart ||| assignment p))

def keyValue (p : Policy) : ConfigRule :=
  (Rule.inOrder [
    (key p).action .key,
    .optional (assignment p ++ value p),
    .optional (lineComment p ||| blockComment p)]).action .keyValue

def sectionName (p : Policy) : ConfigRule :=
  if p.alnumNames then alnumName
  else .many1 (text \ (.text p.sectionEnd ||| .text p.sectionStart))

def skippedSection (p : Policy) : ConfigRule :=
  ((Rule.many (text \ .text p.sectionEnd) \ endOfLine ++ .optional endOfLine).action .invalid).pop

def sectionHeader (p : Policy) : ConfigRule :=
  let start := (Rule.text p.sectionStart ++ blanks).push
    (.major "Found start of section, but no section name.")
  let name := (((sectionName p).action .sectionName).replaceScope sectionScope).prepare
    (.major "Found section name, but no end of section.")
  start ++ (name ++ (blanks ++ Rule.text p.sectionEnd).cancel ||| skippedSection p)

def badLine : ConfigRule :=
  ((Rule.many1 text ++ .optional endOfLine).sendNow
    (.major "Could not parse contents.")).action .invalid

def spacing : ConfigRule := .many (.set .blank ||| endOfLine)

def line (p : Policy) : ConfigRule :=
  Rule.firstOf [blockComment p, lineComment p, sectionHeader p, keyValue p, badLine] ++ spacing

def root (p : Policy) : ConfigRule := spacing ++ .many (line p) ++ .endOfInput

end Grammar
end Backtrack.Config
