import Backtrack.Files.Access

/-! File patterns. `*` stands for any text of a name, `?` for one character, brackets for one of a
class, and `**` as a whole component for directories at any depth. Matches come in the order of
names within each directory. -/
namespace Backtrack.Glob

inductive ClassPart where
  | one (c : Char)
  | range (low high : Char)
  deriving DecidableEq

inductive Token where
  | char (c : Char)
  | anyChar
  | anyText
  | anyDepth
  | within (parts : List ClassPart)
  | outside (parts : List ClassPart)
  deriving DecidableEq

def ClassPart.holds (c : Char) : ClassPart → Bool
  | one d => c == d
  | range low high => low ≤ c && c ≤ high

def classParts : List Char → List ClassPart
  | low :: '-' :: high :: rest => .range low high :: classParts rest
  | c :: rest => .one c :: classParts rest
  | [] => []

/-- The characters up to the first closing bracket, and the rest after it. -/
def upToBracket : List Char → Option (List Char × List Char)
  | [] => none
  | ']' :: rest => some ([], rest)
  | c :: rest => (upToBracket rest).map fun (inside, after) => (c :: inside, after)

theorem upToBracket_length {cs inside after : List Char}
    (h : upToBracket cs = some (inside, after)) : after.length < cs.length := by
  fun_induction upToBracket cs generalizing inside after with
  | case1 => simp at h
  | case2 rest => simp_all
  | case3 c rest _ ih =>
    obtain ⟨⟨i, a⟩, hi, he⟩ := Option.map_eq_some_iff.1 h
    have := ih hi
    simp only [Prod.mk.injEq] at he
    grind

/-- A class takes its first character as it is, so that a closing bracket may stand there. -/
def bracket? : List Char → Option (Token × List Char)
  | '!' :: first :: rest =>
    (upToBracket rest).map fun (inside, after) => (.outside (classParts (first :: inside)), after)
  | '!' :: [] => none
  | first :: rest =>
    (upToBracket rest).map fun (inside, after) => (.within (classParts (first :: inside)), after)
  | [] => none

theorem bracket?_length {cs after : List Char} {token : Token}
    (h : bracket? cs = some (token, after)) : after.length < cs.length := by
  unfold bracket? at h
  split at h
  all_goals try simp at h
  all_goals
    obtain ⟨i, hi, -⟩ := h
    have := upToBracket_length hi
    simp; omega

/-- Reads a pattern. Stars in a row are one, or two that are a whole component. -/
def tokens (componentStart : Bool) : List Char → Option (List Token)
  | [] => some []
  | '?' :: rest => (tokens false rest).map (.anyChar :: ·)
  | '*' :: '*' :: '*' :: _ => none
  | '*' :: '*' :: '/' :: rest =>
    if componentStart then (tokens true rest).map (.anyDepth :: ·) else none
  | ['*', '*'] => if componentStart then some [.anyDepth] else none
  | '*' :: '*' :: _ => none
  | '*' :: rest => (tokens false rest).map (.anyText :: ·)
  | '[' :: rest =>
    match h : bracket? rest with
    | none => none
    | some (token, after) =>
      have := bracket?_length h
      (tokens false after).map (token :: ·)
  | c :: rest => (tokens (c == '/') rest).map (.char c :: ·)
termination_by cs => cs.length

def matchesName : List Token → List Char → Bool
  | [], name => name.isEmpty
  | .char c :: rest, d :: name => c == d && matchesName rest name
  | .anyChar :: rest, _ :: name => matchesName rest name
  | .within parts :: rest, d :: name => parts.any (·.holds d) && matchesName rest name
  | .outside parts :: rest, d :: name => !parts.any (·.holds d) && matchesName rest name
  | .anyText :: rest, name => anySuffix (matchesName rest) name
  | .anyDepth :: rest, name => anySuffix (matchesName rest) name
  | _ :: _, [] => false
where
  anySuffix (p : List Char → Bool) : List Char → Bool
    | [] => p []
    | c :: rest => p (c :: rest) || anySuffix p rest

/-- The text of a pattern without wildcards. -/
def plain? (pattern : List Token) : Option String :=
  (pattern.mapM fun
    | Token.char c => some c
    | _ => none).map String.ofList

def isRecursive (pattern : List Token) : Bool := pattern.any (· == .anyDepth)

structure Pattern where
  root : String
  components : List (List Token)
  /-- The pattern ends in a slash. -/
  directoryOnly : Bool

def Pattern.parse? (text : String) : Option Pattern := do
  let _ ← tokens true text.toList
  let absolute := Path.isAbsolute text
  let rest := if absolute then text.toList.tail else text.toList
  let pieces := Text.pieces '/' rest
  let pieces := if pieces.getLast? == some [] then pieces.dropLast else pieces
  let components ← pieces.mapM (tokens true)
  return ⟨if absolute then "/" else ".", if rest = [] then [[]] else components,
    text.toList.getLast? == some '/'⟩

section

variable {m : Type → Type} [Monad m]

/-- More directories than this cannot be nested in one path. -/
def maxDepth : Nat := 4096

def extend (base name : String) : String :=
  if Path.components base = ["."] then name else Path.join base name

/-- Two dots, or one, where a pattern begins with a literal dot and matches them. -/
def specials (pattern : List Token) : List String :=
  if pattern.head? = some (.char '.') then ["..", "."].filter fun s => matchesName pattern s.toList
  else []

mutual

/-- The matches of the components under the directory `base`. -/
def under (files : Files m) (directoryOnly : Bool) :
    (depth : Nat) → List (List Token) → String → m (List String)
  | _, [], _ => return []
  | depth, pattern :: rest, base => do
    let inside ← files.isDirectory base
    match plain? pattern with
    | some name =>
      let path := extend base name
      let found ← if name = "." || name = ".." then pure inside else files.isPresent path
      if found then accept files directoryOnly depth rest path else return []
    | none =>
      if !inside then return []
      match depth with
      | 0 => return []
      | depth + 1 =>
        let dots ← (specials pattern).mapM fun name =>
          accept files directoryOnly depth rest (Path.join base name)
        let names := (← files.entries base).mergeSort
        let found ← names.mapM fun name =>
          visit files directoryOnly depth (pattern :: rest) name (extend base name)
        return (dots ++ found).flatten
termination_by depth patterns => (depth, patterns.length, 1)

/-- A path whose own component is matched already. -/
def accept (files : Files m) (directoryOnly : Bool) :
    (depth : Nat) → List (List Token) → String → m (List String)
  | _, [], path => do
    return if !directoryOnly || (← files.isDirectory path) then [path] else []
  | depth, pattern :: rest, path => under files directoryOnly depth (pattern :: rest) path
termination_by depth patterns => (depth, patterns.length, 2)

/-- The matches at and under an entry `name` of a directory that was listed. -/
def visit (files : Files m) (directoryOnly : Bool) :
    (depth : Nat) → List (List Token) → String → String → m (List String)
  | _, [], _, _ => return []
  | depth, pattern :: rest, name, path => do
    if !isRecursive pattern then
      if matchesName pattern name.toList then accept files directoryOnly depth rest path
      else return []
    else match rest with
      | [] =>
        if ← files.isDirectory path then
          return path :: (← under files directoryOnly depth [pattern] path)
        else return []
      | next :: others =>
        if isRecursive next then visit files directoryOnly depth (next :: others) name path
        else
          let here ← if matchesName next name.toList
            then accept files directoryOnly depth others path else pure []
          let below ← if ← files.isDirectory path
            then under files directoryOnly depth (pattern :: next :: others) path else pure []
          return here ++ below
termination_by depth patterns => (depth, patterns.length, 2)

end

def search (files : Files m) (text : String) : m (List String) :=
  match Pattern.parse? text with
  | none => return []
  | some p => under files p.directoryOnly maxDepth p.components p.root

/-- The files that patterns stand for, in the order of the patterns. A pattern that matches nothing
stands for itself. -/
def expand (files : Files m) (patterns : List String) : m (List String) := do
  let found ← patterns.mapM fun text => do
    match ← search files text with
    | [] => return [text]
    | paths => return paths
  return found.flatten

end

end Backtrack.Glob
