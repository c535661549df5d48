import Backtrack.Proofs.AttributeText
import Backtrack.Proofs.Spelling
import Backtrack.Proofs.Telling

/-! What the XML grammars share: whitespace, names and quotes as they are spelled and read. What
follows a part is told from it by its first byte: whitespace from names, delimiters from both. -/
namespace Backtrack.Xml

variable {β δ : Type}

/-- A text between two quotes of one kind. -/
def Quote.enclose (q : Quote) (text : Bytes) : Bytes := [q.byte] ++ text ++ [q.byte]

section Spelling

/-- The rule spells these prints where it skips nothing. -/
abbrev Spells (rule : XmlRule) (print : δ → Bytes) : Prop := rule.Spells (· == .invalid) print

theorem run_spells (s : CharSet) : Spells (.many (.set s)) (Run.bytes (s := s)) := by
  refine (Rule.Spells.set s).many.map (fun parts => ⟨parts.map (·.1), ?_⟩) fun parts =>
    List.map_eq_flatMap.symm
  intro c member
  obtain ⟨part, -, rfl⟩ := List.mem_map.mp member
  exact part.2

theorem word_spells (s : CharSet) : Spells (.many1 (.set s)) fun word : Word s => word.bytes := by
  refine (Rule.Spells.set s).many1.map
    (fun parts => ⟨⟨parts.1.1 :: parts.2.map (·.1), ?_⟩, List.cons_ne_nil _ _⟩) fun parts => ?_
  · refine List.forall_mem_cons.mpr ⟨parts.1.2, fun c member => ?_⟩
    obtain ⟨part, -, rfl⟩ := List.mem_map.mp member
    exact part.2
  · exact congrArg (parts.1.1 :: ·) List.map_eq_flatMap.symm

theorem spaces_spells : Spells spaces fun space : Space => space.bytes := word_spells whitespace

theorem blank_spells : Spells blank fun gap : Gap => gap.bytes := by
  have gap : Spells spaces fun gap : Gap => gap.bytes := spaces_spells.map (·.toRun) fun _ => rfl
  exact gap.optional ⟨⟨[], by simp⟩, rfl⟩

theorem name_spells : Spells Name.token NameText.bytes :=
  (((Rule.Spells.set _).seq (run_spells _)).map
    (fun ⟨first, later⟩ => (⟨first.1, later, first.2⟩ : NameText)) fun _ => rfl).action _

theorem skipped_spells (part : XmlRule) (print : δ → Bytes) : Spells (part.action .invalid) print :=
  .defect rfl part print

end Spelling

/-- The text does not begin with a byte of the class. -/
def Bars (s : CharSet) (text : Bytes) : Prop := ∀ c ∈ text.head?, ¬ s.contains c = true

section Barriers

variable {s t : CharSet} {x rest : Bytes}

theorem Bars.append (outside : ∀ c ∈ x, ¬ s.contains c = true) (behind : x = [] → Bars s rest) :
    Bars s (x ++ rest) := by
  cases x with
  | nil => exact behind rfl
  | cons b x =>
    intro c first
    obtain rfl : b = c := by simpa using first
    exact outside b (List.mem_cons_self ..)

theorem Run.bars (run : Run s) (apart : s.disjoint t = true) (behind : Bars t rest) :
    Bars t (run.bytes ++ rest) :=
  .append (fun c member => CharSet.not_contains_of_disjoint apart (run.inside c member))
    fun _ => behind

theorem Word.bars (word : Word s) (apart : s.disjoint t = true) (rest : Bytes) :
    Bars t (word.bytes ++ rest) :=
  .append (fun c member => CharSet.not_contains_of_disjoint apart (word.inside c member))
    fun none => absurd none word.filled

theorem NameText.bars (name : NameText) (apart : firstNameChar.disjoint t = true) (rest : Bytes) :
    Bars t (name.bytes ++ rest) := by
  intro c first
  obtain rfl : name.first = c := by simpa [NameText.bytes] using first
  exact CharSet.not_contains_of_disjoint apart name.begins

theorem bars_cons {b : UInt8} (outside : t.contains b = false) (rest : Bytes) :
    Bars t (b :: rest) := by
  intro c first
  obtain rfl : b = c := by simpa using first
  simp [outside]

end Barriers

section Reading

variable {s : CharSet} {rest : Bytes}

theorem byte_reads (b : UInt8) (rest : Bytes) : (Rule.byte b : XmlRule).Reads [b] rest :=
  .set (CharSet.contains_ofBytes_singleton b) rest

theorem Word.reads (word : Word s) (barred : Bars s rest) :
    (Rule.many1 (.set s) : XmlRule).Reads word.bytes rest :=
  .many1_set word.filled word.inside barred

theorem Space.reads (space : Space) (barred : Bars whitespace rest) :
    spaces.Reads space.bytes rest :=
  Word.reads space barred

theorem Gap.reads (gap : Gap) (barred : Bars whitespace rest) : blank.Reads gap.bytes rest := by
  by_cases none : gap.bytes = []
  · rw [none]
    exact (Rule.Rejects.many1 (.set barred)).optional
  · exact (Rule.Reads.many1_set none gap.inside barred).optional

/-- Nothing that begins with a space stands where the gap is followed by something else. -/
theorem Gap.rejects (gap : Gap) {rule : XmlRule} (barred : Bars whitespace rest)
    (other : rule.Rejects rest) : (spaces ++ rule).Rejects (gap.bytes ++ rest) := by
  by_cases none : gap.bytes = []
  · rw [none]
    exact (Rule.Rejects.many1 (.set barred)).seq
  · have space : spaces.Reads gap.bytes rest := .many1_set none gap.inside barred
    exact .seqSecond space other

theorem NameText.reads (name : NameText) (barred : Bars nameChar rest) :
    (Rule.set firstNameChar ++ Rule.many (.set nameChar) : XmlRule).Reads name.bytes rest :=
  Rule.Reads.seq (.set name.begins _) (.many_set name.later.inside barred)

end Reading

/-- The rule tells this of the text, and skips nothing. -/
abbrev Tells (view : Tree Action → List β) (rule : XmlRule) (text rest : Bytes)
    (said : Source → Nat → List β) : Prop :=
  rule.Tells (· == .invalid) view text rest said

/-- Nothing inside the construct was skipped. -/
theorem isValid_node (act : Action) (sound : (act == .invalid) = false) (span : Span)
    {trees : List (Tree Action)} (clean : Tree.defects (· == .invalid) trees = 0) :
    isValid (.node act span trees) = true := by
  have none : Tree.defects (· == .invalid) [.node act span trees] = 0 := by
    simp [Tree.defects_node, clean, sound]
  have whole := (Tree.all_valid_iff _).mpr none
  simpa [isValid] using whole

/-- A word under an action that is told by its span. -/
theorem Word.tells {s : CharSet} (word : Word s) {rest : Bytes} (barred : Bars s rest)
    {view : Tree Action → List β} {act : Action} {made : Span → List β}
    (shows : ∀ span, view (.node act span []) = made span)
    (sound : (act == .invalid) = false) :
    Tells view ((Rule.many1 (.set s)).action act) word.bytes rest
      fun source pos => made (.ofText source pos word.bytes) := by
  have told : Tells view ((Rule.many1 (.set s)).action act) word.bytes rest _ :=
    .leaf (word.reads barred) rfl sound
  exact told.as rfl fun _ _ => shows _

theorem NameText.tells (name : NameText) {rest : Bytes} (barred : Bars nameChar rest)
    (view : Tree Action → List β) : Tells view Name.token name.bytes rest
      fun source pos => view (.node .name (.ofText source pos name.bytes) []) :=
  .leaf (name.reads barred) rfl rfl

theorem mark_tells (view : Tree Action → List β) (q : Quote) (rest : Bytes) :
    Tells view (mark q) [q.byte] rest fun _ _ => [] :=
  (byte_reads _ _).tells rfl

end Backtrack.Xml
