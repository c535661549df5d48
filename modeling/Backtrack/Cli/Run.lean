import Backtrack.Cli.Console
import Backtrack.Cli.Help
import Backtrack.Config.File
import Backtrack.Config.PolicyFile
import Backtrack.Files.Glob

/-! A run of the program from its arguments to what it prints. -/
namespace Backtrack.Cli

structure Printed where
  code : Nat := 0
  out : List String := []
  err : List String := []

namespace Printed

/-- What a second part of a run prints comes after the first. The worse failure gives the code. -/
def followedBy (first second : Printed) : Printed :=
  ⟨max first.code second.code, first.out ++ second.out, first.err ++ second.err⟩

end Printed

/-- The arguments make no command. -/
def usageCode : Nat := 2

def faultCode : Nat := 101

def usage : Printed :=
  ⟨usageCode, [], ["Usage: sprig <COMMAND>", "", "For more information, try '--help'."]⟩

/-- An error ends a run before anything is parsed. -/
def failed (message : String) (cause : Option String) : Printed :=
  let causes := match cause with
    | some cause => ["", "Caused by:", "    " ++ cause]
    | none => []
  ⟨1, [], ("Error: " ++ message) :: causes⟩

/-- What one parse prints. A fault ends it without a verdict. -/
def printed (label : String) (transcription : Transcription) :
    Except Fault Outcome → Printed
  | .ok outcome =>
    ⟨if outcome.isGood then 0 else 1,
      transcription.events.toList ++ [s!"{label}: {outcome.describe}"],
      transcription.messages.toList⟩
  | .error fault => ⟨faultCode, [], [fault.message]⟩

def runXml (construct : Xml.Construct) (text : String) : Printed :=
  let label := "<input>"
  let parsed :=
    ({} : Xml.Parser).parse construct (Text.utf8 text).toArray (Transcription.xmlClient label) {}
  printed label parsed.world parsed.outcome

def policyCause? : Config.PolicyError → Option String
  | .unreadable _ reason => some reason
  | _ => none

variable {m : Type → Type} [Monad m]

/-- The policy that is asked for, or the user's own, or the default one. -/
def requestedPolicy (files : Files m) (home : String) (request : ConfigRequest) :
    m (Except Printed Config.Policy) := do
  let loaded ← Config.Policy.load files (request.policy.getD (Config.Policy.path home))
  match loaded, request.policy with
  | .error error, _ => return .error (failed error.message (policyCause? error))
  | .ok none, some path => return .error (failed s!"No policy file at {path}" none)
  | .ok policy, _ =>
    let policy := policy.getD {}
    return .ok { policy with budget := request.budget.getD policy.budget }

/-- Parses files one after the other with the same parser, up to a fault. -/
def runFiles (files : Files m) : Config.Parser → List String → m Printed
  | _, [] => return {}
  | parser, path :: paths => do
    let parsed ← parser.parseFile files path (Transcription.configClient path) {}
    let first := printed path parsed.world parsed.outcome
    match parsed.outcome with
    | .ok _ => return first.followedBy (← runFiles files parsed.parser paths)
    | .error _ => return first

def runConfig (files : Files m) (home : String) (request : ConfigRequest) : m Printed := do
  match ← requestedPolicy files home request with
  | .error result => return result
  | .ok policy =>
    match Config.Parser.ofPolicy policy with
    | .error error => return failed error.message none
    | .ok parser => runFiles files parser (← Glob.expand files request.patterns)

def run (files : Files m) (home : String) (args : List String) : m Printed :=
  match command? args with
  | none => return usage
  | some .version => return ⟨0, [versionLine], []⟩
  | some (.help topic) => return ⟨0, topic.lines, []⟩
  | some (.xml construct text) => return runXml construct text
  | some (.config request) => runConfig files home request

end Backtrack.Cli
