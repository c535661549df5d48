import Mathlib.Data.List.Infix
import Backtrack.Config.Call
import Backtrack.Text.Utf8

/-! Documents and how they are printed. A document has settings of its own and sections with
settings. It is printed with one setting or one section header on each line, and read, it says its
settings and the names of its sections in that order. -/
namespace Backtrack.Config

inductive SettingValue where
  | bare (bytes : Bytes)
  /-- Printed between double quotes. -/
  | quoted (bytes : Bytes)

def SettingValue.bytes : SettingValue → Bytes
  | bare bytes => bytes
  | quoted bytes => bytes

structure Setting where
  key : Bytes
  value : Option SettingValue

structure Section where
  name : Bytes
  settings : List Setting

structure Document where
  globals : List Setting
  sections : List Section

/-- The blanks around an assignment and inside the delimiters of a section name. -/
structure Layout where
  beforeAssign : Bytes := []
  afterAssign : Bytes := []
  beforeName : Bytes := []
  afterName : Bytes := []

/-- One line of a printed document. -/
inductive Line where
  | setting (setting : Setting)
  | header (name : Bytes)

def SettingValue.print : SettingValue → Bytes
  | bare bytes => bytes
  | quoted bytes => [0x22] ++ bytes ++ [0x22]

/-- A value behind an assignment. -/
def printAssigned (p : Policy) (l : Layout) : Option SettingValue → Bytes
  | none => []
  | some value => l.beforeAssign ++ Text.utf8 p.assign ++ l.afterAssign ++ value.print

/-- A setting as it is printed, without the line feed. -/
def Setting.print (p : Policy) (l : Layout) (s : Setting) : Bytes :=
  s.key ++ printAssigned p l s.value

/-- The name of a section between its delimiters. -/
def printHeader (p : Policy) (l : Layout) (name : Bytes) : Bytes :=
  Text.utf8 p.sectionStart ++ l.beforeName ++ name ++ l.afterName ++ Text.utf8 p.sectionEnd

def Line.text (p : Policy) (l : Layout) : Line → Bytes
  | setting s => s.print p l
  | header name => printHeader p l name

/-- A line with the line feed that ends it. -/
def Line.print (p : Policy) (l : Layout) (line : Line) : Bytes := line.text p l ++ [0x0A]

def Section.lines (s : Section) : List Line := .header s.name :: s.settings.map .setting

def Document.lines (d : Document) : List Line :=
  d.globals.map .setting ++ d.sections.flatMap Section.lines

def Document.print (p : Policy) (l : Layout) (d : Document) : Bytes :=
  d.lines.flatMap (Line.print p l)

/-- A call with the bytes that it shows. -/
inductive Saying where
  | globalKey (key : Bytes) (value : Option Bytes)
  | sectionName (name : Bytes)
  | sectionKey (key : Bytes) (value : Option Bytes)
  | done (valid : Bool)
  deriving DecidableEq

def Call.saying : Call → Saying
  | globalKey key value => .globalKey key.bytes (value.map Span.bytes)
  | sectionName name => .sectionName name.bytes
  | sectionKey key value => .sectionKey key.bytes (value.map Span.bytes)
  | done valid => .done valid

def Saying.opensSection : Saying → Bool
  | sectionName _ => true
  | _ => false

def Setting.globalSaying (s : Setting) : Saying := .globalKey s.key (s.value.map (·.bytes))

def Setting.sectionSaying (s : Setting) : Saying := .sectionKey s.key (s.value.map (·.bytes))

def Section.sayings (s : Section) : List Saying :=
  .sectionName s.name :: s.settings.map Setting.sectionSaying

/-- The settings and sections of the document in order. -/
def Document.sayings (d : Document) : List Saying :=
  d.globals.map Setting.globalSaying ++ d.sections.flatMap Section.sayings

/-- What a line says behind the name of a section, or before the first one. -/
def Line.saying (inSection : Bool) : Line → Saying
  | setting s => if inSection then s.sectionSaying else s.globalSaying
  | header name => .sectionName name

def Line.isHeader : Line → Bool
  | setting _ => false
  | header _ => true

/-- What lines say one after the other. -/
def Line.sayings (inSection : Bool) : List Line → List Saying
  | [] => []
  | line :: lines => line.saying inSection :: sayings (inSection || line.isHeader) lines

/-- A letter or an underscore. -/
def NameStart (b : UInt8) : Prop := 0x41 ≤ b ∧ b ≤ 0x5A ∨ 0x61 ≤ b ∧ b ≤ 0x7A ∨ b = 0x5F

/-- A byte of a name behind the first one. -/
def NamePart (b : UInt8) : Prop := NameStart b ∨ 0x30 ≤ b ∧ b ≤ 0x39

/-- A letter or an underscore, and then letters, digits and underscores. -/
def IsName : Bytes → Prop
  | [] => False
  | first :: rest => NameStart first ∧ ∀ b ∈ rest, NamePart b

theorem IsName.begins {bytes : Bytes} (named : IsName bytes) :
    ∃ first rest, bytes = first :: rest ∧ NameStart first ∧ ∀ b ∈ rest, NamePart b := by
  cases bytes with
  | nil => cases named
  | cons first rest => exact ⟨first, rest, rfl, named⟩

def IsPrintable (b : UInt8) : Prop := 0x20 ≤ b ∧ b ≤ 0x7E

/-- Punctuation in ASCII, except for the underscore and the double quote. -/
def IsPunctuation (b : UInt8) : Prop :=
  (0x21 ≤ b ∧ b ≤ 0x2F ∨ 0x3A ≤ b ∧ b ≤ 0x40 ∨ 0x5B ≤ b ∧ b ≤ 0x60 ∨ 0x7B ≤ b ∧ b ≤ 0x7E) ∧
    b ≠ 0x5F ∧ b ≠ 0x22

instance (b : UInt8) : Decidable (NameStart b) := by unfold NameStart; infer_instance

instance (b : UInt8) : Decidable (NamePart b) := by unfold NamePart; infer_instance

instance (b : UInt8) : Decidable (IsPrintable b) := by unfold IsPrintable; infer_instance

instance (b : UInt8) : Decidable (IsPunctuation b) := by unfold IsPunctuation; infer_instance

/-- A bare value can be told from what follows it, and a quoted one needs a policy with quotes. -/
def SettingValue.Fits (p : Policy) : SettingValue → Prop
  | bare bytes =>
    (∀ b ∈ bytes, IsPrintable b) ∧
    (∀ b ∈ bytes.head?, Span.isBlank b = false) ∧ (∀ b ∈ bytes.getLast?, Span.isBlank b = false) ∧
    bytes.head? ≠ some 0x22 ∧
    ¬ Text.utf8 p.lineComment <:+: bytes ∧ ¬ Text.utf8 p.blockCommentStart <:+: bytes
  | quoted bytes => p.quotedValues = true ∧ ∀ b ∈ bytes, IsPrintable b ∧ b ≠ 0x22

structure Setting.Fits (p : Policy) (s : Setting) : Prop where
  key : IsName s.key
  value : ∀ value ∈ s.value, value.Fits p

def Line.Fits (p : Policy) : Line → Prop
  | setting s => s.Fits p
  | header name => IsName name

structure Document.Fits (p : Policy) (d : Document) : Prop where
  globals : ∀ s ∈ d.globals, s.Fits p
  names : ∀ s ∈ d.sections, IsName s.name
  settings : ∀ s ∈ d.sections, ∀ t ∈ s.settings, t.Fits p
  filled : d.globals ≠ [] ∨ d.sections ≠ []

section Decisions

-- Decided along the list, and not by going through the values of a byte.
local instance decidableAllBytes (P : UInt8 → Prop) [DecidablePred P] (bytes : Bytes) :
    Decidable (∀ b ∈ bytes, P b) := List.decidableBAll P bytes

local instance decidableFoundByte (P : UInt8 → Prop) [DecidablePred P] (found : Option UInt8) :
    Decidable (∀ b ∈ found, P b) := Option.decidableForallMem found

instance (bytes : Bytes) : Decidable (IsName bytes) := by
  unfold IsName
  split <;> infer_instance

instance (p : Policy) (value : SettingValue) : Decidable (value.Fits p) := by
  unfold SettingValue.Fits
  split <;> infer_instance

instance (p : Policy) (s : Setting) : Decidable (s.Fits p) :=
  decidable_of_iff (IsName s.key ∧ ∀ value ∈ s.value, value.Fits p)
    ⟨fun ⟨key, value⟩ => ⟨key, value⟩, fun fits => ⟨fits.key, fits.value⟩⟩

instance (p : Policy) (d : Document) : Decidable (d.Fits p) :=
  decidable_of_iff ((∀ s ∈ d.globals, s.Fits p) ∧ (∀ s ∈ d.sections, IsName s.name) ∧
      (∀ s ∈ d.sections, ∀ t ∈ s.settings, t.Fits p) ∧ (d.globals ≠ [] ∨ d.sections ≠ []))
    ⟨fun ⟨globals, names, settings, filled⟩ => ⟨globals, names, settings, filled⟩,
      fun fits => ⟨fits.globals, fits.names, fits.settings, fits.filled⟩⟩

end Decisions

/-- All gaps are blanks. -/
structure Layout.Blank (l : Layout) : Prop where
  beforeAssign : ∀ b ∈ l.beforeAssign, Span.isBlank b = true
  afterAssign : ∀ b ∈ l.afterAssign, Span.isBlank b = true
  beforeName : ∀ b ∈ l.beforeName, Span.isBlank b = true
  afterName : ∀ b ∈ l.afterName, Span.isBlank b = true

/-- Names are letters, digits and underscores, and the delimiters are of other bytes. None of them
is the beginning of another. -/
structure Policy.Punctual (p : Policy) : Prop where
  alnumNames : p.alnumNames = true
  filled : ∀ d ∈ p.delimiters, Text.utf8 d.2 ≠ []
  punctuation : ∀ d ∈ p.delimiters, ∀ b ∈ Text.utf8 d.2, IsPunctuation b
  apart : p.delimiters.Pairwise fun d e =>
    ¬ Text.utf8 d.2 <+: Text.utf8 e.2 ∧ ¬ Text.utf8 e.2 <+: Text.utf8 d.2

namespace Line

theorem opensSection_saying (line : Line) (inSection : Bool) :
    (line.saying inSection).opensSection = line.isHeader := by
  cases line <;> cases inSection <;> rfl

theorem sayings_append (lines more : List Line) (inSection : Bool) :
    sayings inSection (lines ++ more) =
      sayings inSection lines ++ sayings (inSection || lines.any isHeader) more := by
  induction lines generalizing inSection with
  | nil => simp [sayings]
  | cons line lines ih => simp [sayings, ih, Bool.or_assoc]

theorem sayings_settings (settings : List Setting) (inSection : Bool) :
    sayings inSection (settings.map setting) =
      settings.map fun s => if inSection then s.sectionSaying else s.globalSaying := by
  induction settings with
  | nil => rfl
  | cons s settings ih => simp [sayings, saying, isHeader, ih]

theorem sayings_sections (sections : List Section) (inSection : Bool) :
    sayings inSection (sections.flatMap Section.lines) = sections.flatMap Section.sayings := by
  induction sections generalizing inSection with
  | nil => rfl
  | cons s sections ih =>
    simp [Section.lines, Section.sayings, sayings, saying, isHeader, sayings_append,
      sayings_settings, ih]

end Line

/-- The lines of a document say what it holds. -/
theorem Document.sayings_lines (d : Document) : Line.sayings false d.lines = d.sayings := by
  rw [lines, sayings, Line.sayings_append, Line.sayings_settings, Line.sayings_sections]
  rfl

theorem Document.Fits.lines {p : Policy} {d : Document} (fits : d.Fits p) :
    ∀ line ∈ d.lines, line.Fits p := by
  intro line member
  rcases List.mem_append.mp member with member | member
  · obtain ⟨s, inside, rfl⟩ := List.mem_map.mp member
    exact fits.globals s inside
  · obtain ⟨s, inside, member⟩ := List.mem_flatMap.mp member
    rcases List.mem_cons.mp member with rfl | member
    · exact fits.names s inside
    · obtain ⟨t, within, rfl⟩ := List.mem_map.mp member
      exact fits.settings s inside t within

theorem Document.Fits.lines_ne_nil {p : Policy} {d : Document} (fits : d.Fits p) :
    d.lines ≠ [] := by
  unfold Document.lines
  rcases fits.filled with globals | sections
  · simp [globals]
  · obtain ⟨s, rest, same⟩ := List.exists_cons_of_ne_nil sections
    simp [same, Section.lines]

end Backtrack.Config
