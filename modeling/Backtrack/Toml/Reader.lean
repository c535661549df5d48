import Backtrack.Toml.Token

/-! Reading TOML. Every reader takes tokens from the front of a list and returns what follows. -/
namespace Backtrack.Toml

def Token.isBlank : Token → Bool
  | blank _ => true
  | _ => false

def Token.isSpace (token : Token) : Bool := token.isBlank || token == .newline

def isBareKey (c : Char) : Bool := c.isAlphanum || c == '_' || c == '-'

def Token.key? : Token → Option String
  | bare text => if text.toList.all isBareKey then some text else none
  | quoted text false => some text
  | _ => none

def Token.inKey : Token → Bool
  | blank _ | dot | bare _ | quoted _ _ => true
  | _ => false

/-- The names in a key, with a dot between two of them. -/
def names? : List Token → Option (List String)
  | [token] => token.key?.map ([·])
  | token :: .dot :: rest => do return (← token.key?) :: (← names? rest)
  | _ => none

def key? (tokens : List Token) : Option (Key × List Token) := do
  let names ← names? ((tokens.takeWhile Token.inKey).filter (!·.isBlank))
  let name ← names.getLast?
  return (⟨names.dropLast, name⟩, tokens.dropWhile Token.inKey)

/-- The text of a bare value, which may hold dots. -/
def bareText : List Token → String × List Token
  | .bare text :: rest => let (more, rest) := bareText rest; (text ++ more, rest)
  | .dot :: rest => let (more, rest) := bareText rest; ("." ++ more, rest)
  | rest => ("", rest)

/-- A date and a time may have one space between them. -/
def bareValue? (tokens : List Token) : Option (Value × List Token) :=
  let (text, rest) := bareText tokens
  let (text, rest) :=
    match rest with
    | .blank ' ' :: .bare time :: after =>
      if isDate text.toList && time.toList.head?.any Char.isDigit then
        let (more, rest) := bareText (.bare time :: after)
        (text ++ " " ++ more, rest)
      else (text, rest)
    | _ => (text, rest)
  (scalar? text).map (·, rest)

/-- Items with commas between them, up to the closing token. A comma may follow the last item. -/
def items? {α : Type} (closing : Token) (item : List Token → Option (α × List Token)) :
    (fuel : Nat) → List Token → Option (List α × List Token)
  | 0, _ => none
  | fuel + 1, tokens =>
    match tokens.dropWhile Token.isSpace with
    | [] => none
    | token :: rest =>
      if token = closing then some ([], rest)
      else do
        let (first, rest) ← item (token :: rest)
        match rest.dropWhile Token.isSpace with
        | .comma :: rest =>
          let (others, rest) ← items? closing item fuel rest
          return (first :: others, rest)
        | token :: rest => if token = closing then return ([first], rest) else none
        | [] => none

def pair? (value : List Token → Option (Value × List Token)) (tokens : List Token) :
    Option ((Key × Value) × List Token) := do
  let (key, rest) ← key? tokens
  match rest with
  | .equals :: rest =>
    let (value, rest) ← value rest
    return ((key, value), rest)
  | _ => none

/-- Brackets and braces in one another. -/
def maxNesting : Nat := 80

def value? : (depth : Nat) → List Token → Option (Value × List Token)
  | depth, tokens =>
    match tokens.dropWhile Token.isBlank, depth with
    | .quoted text _ :: rest, _ => some (.text text, rest)
    | .openBracket :: rest, depth + 1 => do
      let (items, rest) ← items? .closeBracket (value? depth) (rest.length + 1) rest
      return (.array items, rest)
    | .openBrace :: rest, depth + 1 => do
      let (pairs, rest) ← items? .closeBrace (pair? (value? depth)) (rest.length + 1) rest
      let entries ← pairs.foldlM (fun entries (key, value) => addPair key value .inline entries) []
      return (.table .inline entries, rest)
    | tokens, _ => bareValue? tokens

def line? (tokens : List Token) : Option (Line × List Token) :=
  match tokens with
  | .openBracket :: .openBracket :: rest => do
    match ← key? rest with
    | (key, .closeBracket :: .closeBracket :: rest) => return (.element key, rest)
    | _ => none
  | .openBracket :: rest => do
    match ← key? rest with
    | (key, .closeBracket :: rest) => return (.table key, rest)
    | _ => none
  | _ => do
    let ((key, value), rest) ← pair? (value? maxNesting) tokens
    return (.pair key value, rest)

def lines? : (fuel : Nat) → List Token → Option (List Line)
  | 0, _ => none
  | fuel + 1, tokens =>
    match tokens.dropWhile Token.isSpace with
    | [] => some []
    | tokens => do
      let (line, rest) ← line? tokens
      match rest.dropWhile Token.isBlank with
      | [] => return [line]
      | .newline :: rest => return line :: (← lines? fuel rest)
      | _ => none

/-- A byte order mark may come first. -/
def read? (text : String) : Option Entries := do
  let cs := match text.toList with
    | '\uFEFF' :: rest => rest
    | cs => cs
  let tokens ← tokens? cs
  let lines ← lines? (tokens.length + 1) tokens
  let document ← lines.foldlM Document.add {}
  return document.root

end Backtrack.Toml
