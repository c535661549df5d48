import Backtrack.Cli.Arguments

/-! Command lines that ask for config files. Names and settings stand in any order, and the value of
a setting follows an equals sign or is an argument of its own. What is asked for rests on the names
in their order and on the settings in theirs, and on nothing else. -/
namespace Backtrack.Cli

/-- Arguments that belong together. -/
inductive Part where
  | name (text : String)
  | setting (setting : Setting) (value : String) (joined : Bool)

namespace Part

def arguments : Part → List String
  | name text => [text]
  | setting s value true => [s.option ++ "=" ++ value]
  | setting s value false => [s.option, value]

/-- A name does not begin with a hyphen, and a value of its own is not taken for an option. -/
def Plain : Part → Prop
  | name text => text.toList.head? ≠ some '-'
  | setting _ value joined => joined = true ∨ isOption value = false

def name? : Part → Option String
  | name text => some text
  | setting .. => none

def setting? : Part → Option (Setting × String)
  | name _ => none
  | setting s value _ => some (s, value)

end Part

/-- The parts after the name of the command. -/
structure ConfigLine where
  parts : List Part
  plain : ∀ part ∈ parts, part.Plain

namespace ConfigLine

def arguments (line : ConfigLine) : List String :=
  "config" :: line.parts.flatMap Part.arguments

def names (line : ConfigLine) : List String := line.parts.filterMap Part.name?

def settings (line : ConfigLine) : List (Setting × String) := line.parts.filterMap Part.setting?

end ConfigLine

namespace ConfigRequest

def setAll (r : ConfigRequest) (settings : List (Setting × String)) : Option ConfigRequest :=
  settings.foldlM (fun r (setting, value) => r.set setting value) r

@[simp] theorem setAll_cons (r : ConfigRequest) (setting : Setting) (value : String)
    (settings : List (Setting × String)) :
    r.setAll ((setting, value) :: settings) = (r.set setting value).bind (·.setAll settings) := rfl

theorem set_add (r : ConfigRequest) (names : List String) (setting : Setting) (value : String) :
    (r.add names).set setting value = (r.set setting value).map (·.add names) := by
  cases setting with
  | policy =>
    simp only [set, add]
    by_cases refused : r.policy.isSome || value.isEmpty <;> simp [refused]
  | budget =>
    simp only [set, add]
    by_cases refused : r.budget.isSome
    · simp [refused]
    · cases number? value <;> simp [refused]

/-- A setting may be made before or after a name. -/
theorem setAll_add (r : ConfigRequest) (names : List String) (settings : List (Setting × String)) :
    (r.add names).setAll settings = (r.setAll settings).map (·.add names) := by
  induction settings generalizing r with
  | nil => rfl
  | cons first settings ih =>
    obtain ⟨setting, value⟩ := first
    simp only [setAll_cons, set_add]
    cases r.set setting value with
    | none => rfl
    | some next => exact ih next

theorem set_patterns {r next : ConfigRequest} {setting : Setting} {value : String}
    (made : r.set setting value = some next) : next.patterns = r.patterns := by
  cases setting with
  | policy =>
    simp only [set] at made
    split at made
    · cases made
    · cases made
      rfl
  | budget =>
    simp only [set] at made
    split at made
    · cases made
    · obtain ⟨n, -, rfl⟩ := Option.map_eq_some_iff.mp made
      rfl

theorem setAll_patterns {r options : ConfigRequest} {settings : List (Setting × String)}
    (made : r.setAll settings = some options) : options.patterns = r.patterns := by
  induction settings generalizing r with
  | nil =>
    cases made
    rfl
  | cons first settings ih =>
    obtain ⟨setting, value⟩ := first
    obtain ⟨next, set, rest⟩ := Option.bind_eq_some_iff.mp made
    exact (ih rest).trans (set_patterns set)

end ConfigRequest

section

variable {text : String} (plain : text.toList.head? ≠ some '-')

include plain

theorem isOption_name : isOption text = false := by
  unfold isOption
  split
  · simp_all
  · rfl

theorem asksHelp_name : asksHelp text = false := by
  unfold asksHelp
  split
  · simp_all
  · simp only [beq_eq_false_iff_ne]
    rintro rfl
    exact plain rfl

theorem setting?_name : setting? text = none := by
  have other (s : Setting) : String.ofList (text.toList.takeWhile (· != '=')) ≠ s.option := by
    intro same
    have same := congrArg String.toList same
    rw [String.toList_ofList] at same
    have first : (text.toList.takeWhile (· != '=')).head? = some '-' := by
      rw [same]
      cases s <;> rfl
    apply plain
    rw [← List.takeWhile_append_dropWhile (p := (· != '=')) (l := text.toList),
      List.head?_append, first]
    rfl
  simp [setting?, (other _).symm]

end

theorem setting?_option (s : Setting) : setting? s.option = some (s, none) := by
  cases s <;> decide

theorem setting?_joined (s : Setting) (value : String) :
    setting? (s.option ++ "=" ++ value) = some (s, some value) := by
  cases s <;> simp [setting?, Setting.option]

theorem asksHelp_option (s : Setting) : asksHelp s.option = false := by
  cases s <;> decide

theorem asksHelp_joined (s : Setting) (value : String) :
    asksHelp (s.option ++ "=" ++ value) = false := by
  cases s <;> simp [asksHelp, Setting.option, ← String.toList_inj]

namespace ConfigRequest

variable (r : ConfigRequest) (rest : List String)

theorem read_name {text : String} (plain : text.toList.head? ≠ some '-') :
    r.read (text :: rest) = (r.add [text]).read rest := by
  rw [read]
  · simp [asksHelp_name plain, setting?_name plain, isOption_name plain]
  · rintro rfl
    exact plain rfl

theorem read_joined (s : Setting) (value : String) :
    r.read ((s.option ++ "=" ++ value) :: rest) = (r.set s value).bind (·.read rest) := by
  rw [read]
  · simp [asksHelp_joined, setting?_joined]
  · cases s <;> simp [Setting.option, ← String.toList_inj]

theorem read_apart (s : Setting) {value : String} (own : isOption value = false) :
    r.read (s.option :: value :: rest) = (r.set s value).bind (·.read rest) := by
  rw [read]
  · simp [asksHelp_option, setting?_option, own]
  · cases s <;> simp [Setting.option]

/-- Reading takes the settings and the names apart. -/
theorem read_parts {parts : List Part} (plain : ∀ part ∈ parts, part.Plain) :
    r.read (parts.flatMap Part.arguments) =
      (r.setAll (parts.filterMap Part.setting?)).bind fun options =>
        (options.add (parts.filterMap Part.name?)).finish := by
  induction parts generalizing r with
  | nil => simp [read, setAll, add]
  | cons part parts ih =>
    obtain ⟨first, others⟩ := List.forall_mem_cons.mp plain
    cases part with
    | name text =>
      have joined (options : ConfigRequest) (names : List String) :
          (options.add [text]).add names = options.add (text :: names) := by simp [add]
      calc r.read (text :: parts.flatMap Part.arguments)
        _ = (r.add [text]).read (parts.flatMap Part.arguments) := r.read_name _ first
        _ = _ := by
          rw [ih _ others, setAll_add]
          simp only [Option.bind_map, Function.comp_def, joined]
          rfl
    | setting s value together =>
      have read : r.read ((Part.setting s value together).arguments ++
          parts.flatMap Part.arguments) =
          (r.set s value).bind (·.read (parts.flatMap Part.arguments)) := by
        cases together with
        | true => exact r.read_joined _ s value
        | false => exact r.read_apart _ s (first.resolve_left Bool.false_ne_true)
      rw [List.flatMap_cons, read]
      simp only [ih _ others]
      rw [← Option.bind_assoc]
      rfl

end ConfigRequest

namespace ConfigLine

/-- The settings of a line, when they are in order. -/
def options? (line : ConfigLine) : Option ConfigRequest := ConfigRequest.setAll {} line.settings

/-- A line with a name is read as its settings and its names. -/
theorem command? (line : ConfigLine) {options : ConfigRequest} (named : line.names ≠ [])
    (made : line.options? = some options) :
    Cli.command? line.arguments = some (.config { options with patterns := line.names }) := by
  have anew : options.patterns = [] := ConfigRequest.setAll_patterns made
  have made : ConfigRequest.setAll {} (line.parts.filterMap Part.setting?) = some options := made
  change ConfigRequest.read {} (line.parts.flatMap Part.arguments) = _
  rw [ConfigRequest.read_parts {} line.plain, made]
  simp only [Option.bind_some, ConfigRequest.finish, ConfigRequest.add, anew, List.nil_append]
  exact if_neg (by simpa [names] using named)

end ConfigLine
end Backtrack.Cli
