import Backtrack.Cli.Arguments

/-! Help texts, line by line. -/
namespace Backtrack.Cli

def versionLine : String := "sprig 0.1.0"

def programHelp : List String :=
  ["Check config files and XML fragments",
    "",
    "Usage: sprig <COMMAND>",
    "",
    "Commands:",
    "  config  Parse config files",
    "  xml     Parse one XML construct",
    "  help    Print this message or the help of the given subcommand(s)",
    "",
    "Options:",
    "  -h, --help     Print help",
    "  -V, --version  Print version"]

def configHelp : List String :=
  ["Parse config files",
    "",
    "Usage: sprig config [OPTIONS] <FILES>...",
    "",
    "Arguments:",
    "  <FILES>...  Files or glob patterns",
    "",
    "Options:",
    "      --policy <POLICY>          Policy file (default: ~/.config/sprig/policy.toml when present)",
    "      --max-errors <MAX_ERRORS>  Override the policy's error budget",
    "  -h, --help                     Print help"]

def xmlHelp : List String :=
  ["Parse one XML construct",
    "",
    "Usage: sprig xml <CONSTRUCT> <TEXT>",
    "",
    "Arguments:",
    "  <CONSTRUCT>  [possible values: "
      ++ ", ".intercalate (Xml.Construct.all.map Xml.Construct.label) ++ "]",
    "  <TEXT>       ",
    "",
    "Options:",
    "  -h, --help  Print help"]

def helpHelp : List String :=
  ["Print this message or the help of the given subcommand(s)",
    "",
    "Usage: sprig help [COMMAND]...",
    "",
    "Arguments:",
    "  [COMMAND]...  Print help for the subcommand(s)"]

def Topic.lines : Topic → List String
  | program => programHelp
  | config => configHelp
  | xml => xmlHelp
  | help => helpHelp

end Backtrack.Cli
