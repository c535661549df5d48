/-! How a parse request ended. -/
namespace Backtrack

inductive Outcome where
  /-- All input was matched and its content is valid. -/
  | allValid
  /-- A valid beginning was matched. -/
  | someValid
  | notValid
  /-- The root rule did not match. -/
  | notParsed
  | noReceiver
  /-- The range starts past the end of the source. -/
  | noStart
  | emptyData
  /-- The range ends past the end of the source. -/
  | noEnd
  /-- The range ends before it starts. -/
  | endTooLow
  /-- The error budget was used up. -/
  | aborted
  | parsingNow
  | receiving
  | noMessageSink
  | noFileName
  | cantOpenFile
  | emptyFile
  | endOfFile
  deriving DecidableEq

namespace Outcome

def all : List Outcome :=
  [allValid, someValid, notValid, notParsed, noReceiver, noStart, emptyData, noEnd, endTooLow,
    aborted, parsingNow, receiving, noMessageSink, noFileName, cantOpenFile, emptyFile, endOfFile]

def name : Outcome → String
  | allValid => "AllValid"
  | someValid => "SomeValid"
  | notValid => "NotValid"
  | notParsed => "NotParsed"
  | noReceiver => "NoReceiver"
  | noStart => "NoStart"
  | emptyData => "EmptyData"
  | noEnd => "NoEnd"
  | endTooLow => "EndTooLow"
  | aborted => "Aborted"
  | parsingNow => "ParsingNow"
  | receiving => "Receiving"
  | noMessageSink => "NoMessageSink"
  | noFileName => "NoFileName"
  | cantOpenFile => "CantOpenFile"
  | emptyFile => "EmptyFile"
  | endOfFile => "EndOfFile"

def describe : Outcome → String
  | allValid => "All data was parsed and valid."
  | someValid => "Start is valid, but ending part was not recognized."
  | notValid => "Data was parsed, but is not valid."
  | notParsed => "Data was not recognized by parsing rules."
  | noReceiver => "No content receiver provided."
  | noStart => "Starting place is beyond the data."
  | emptyData => "No content at starting place."
  | noEnd => "Ending place is beyond the data."
  | endTooLow => "Ending place less than starting place."
  | aborted => "Too many errors found."
  | parsingNow => "Parser is currently parsing other data."
  | receiving => "Receiver reported an error."
  | noMessageSink => "No message sink provided."
  | noFileName => "No file name provided for parsing."
  | cantOpenFile => "Could not open file."
  | emptyFile => "File has no contents."
  | endOfFile => "Reached end of file, but can't parse content."

def isGood (o : Outcome) : Bool := o == allValid || o == someValid

/-- Matching ran to a verdict, as opposed to a refused request. -/
def impliesAttempt (o : Outcome) : Bool := o.isGood || o == notValid || o == notParsed

def classify (valid ateAll : Bool) : Outcome :=
  if !valid then notValid else if ateAll then allValid else someValid

end Outcome
end Backtrack
