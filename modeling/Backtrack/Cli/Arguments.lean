import Backtrack.Xml.Construct

/-! Command lines. They are read from left to right, and a request for help ends the reading; what
comes before it has to be right. An argument that begins with a hyphen is an option, unless it is
one hyphen alone or follows two hyphens alone. -/
namespace Backtrack.Cli

inductive Topic where
  | program
  | config
  | xml
  | help
  deriving DecidableEq

structure ConfigRequest where
  patterns : List String := []
  policy : Option String := none
  budget : Option Nat := none
  deriving DecidableEq

inductive Command where
  | config (request : ConfigRequest)
  | xml (construct : Xml.Construct) (text : String)
  | help (topic : Topic)
  | version
  deriving DecidableEq

def isOption (arg : String) : Bool :=
  match arg.toList with
  | '-' :: _ :: _ => true
  | _ => false

def asksHelp (arg : String) : Bool :=
  match arg.toList with
  | '-' :: 'h' :: _ => true
  | _ => arg == "--help"

def asksVersion (arg : String) : Bool :=
  match arg.toList with
  | '-' :: 'V' :: _ => true
  | _ => arg == "--version"

inductive Setting where
  | policy
  | budget
  deriving DecidableEq

def Setting.option : Setting → String
  | policy => "--policy"
  | budget => "--max-errors"

/-- The setting that an option names, and the value after an equals sign. -/
def setting? (arg : String) : Option (Setting × Option String) :=
  let name := String.ofList (arg.toList.takeWhile (· != '='))
  let value := match arg.toList.dropWhile (· != '=') with
    | [] => none
    | _ :: value => some (String.ofList value)
  [Setting.policy, .budget].find? (·.option == name) |>.map (·, value)

/-- A number of 64 bits. -/
def number? (text : String) : Option Nat :=
  let digits := match text.toList with
    | '+' :: rest => rest
    | cs => cs
  if digits.isEmpty || !digits.all Char.isDigit then none
  else
    let n := digits.foldl (fun n c => n * 10 + (c.toNat - 48)) 0
    if n < 0x10000000000000000 then some n else none

namespace ConfigRequest

/-- A setting is made once, and a policy has a path. -/
def set (r : ConfigRequest) : Setting → String → Option ConfigRequest
  | .policy, value =>
    if r.policy.isSome || value.isEmpty then none else some { r with policy := some value }
  | .budget, value =>
    if r.budget.isSome then none
    else (number? value).map fun n => { r with budget := some n }

def add (r : ConfigRequest) (patterns : List String) : ConfigRequest :=
  { r with patterns := r.patterns ++ patterns }

def finish (r : ConfigRequest) : Option Command :=
  if r.patterns.isEmpty then none else some (.config r)

def read (r : ConfigRequest) : List String → Option Command
  | [] => r.finish
  | "--" :: rest => (r.add rest).finish
  | arg :: rest =>
    if asksHelp arg then some (.help .config)
    else match setting? arg with
      | some (setting, some value) => (r.set setting value).bind (read · rest)
      | some (setting, none) =>
        match rest with
        | [] => none
        | value :: rest =>
          if isOption value then none else (r.set setting value).bind (read · rest)
      | none => if isOption arg then none else read (r.add [arg]) rest

end ConfigRequest

structure XmlRequest where
  construct : Option Xml.Construct := none
  text : Option String := none

namespace XmlRequest

def add (r : XmlRequest) (arg : String) : Option XmlRequest :=
  match r.construct, r.text with
  | none, _ =>
    (Xml.Construct.all.find? (·.label == arg)).map fun c => { r with construct := some c }
  | some _, none => some { r with text := some arg }
  | some _, some _ => none

def finish (r : XmlRequest) : Option Command := do return .xml (← r.construct) (← r.text)

def read (r : XmlRequest) : List String → Option Command
  | [] => r.finish
  | "--" :: rest => (rest.foldlM add r).bind finish
  | arg :: rest =>
    if asksHelp arg then some (.help .xml)
    else if isOption arg then none
    else (r.add arg).bind (read · rest)

end XmlRequest

def topic? : List String → Option Topic
  | [] => some .program
  | ["config"] => some .config
  | ["xml"] => some .xml
  | ["help"] => some .help
  | _ => none

/-- The command that the arguments make, if they make one. -/
def command? : List String → Option Command
  | [] => none
  | "config" :: rest => ConfigRequest.read {} rest
  | "xml" :: rest => XmlRequest.read {} rest
  | "help" :: rest => (topic? rest).map .help
  | arg :: _ =>
    if asksHelp arg then some (.help .program)
    else if asksVersion arg then some .version
    else none

end Backtrack.Cli
