import Backtrack.Proofs.ByteClasses

/-! What a range expression says. It is read from the front: three bytes with a dash in the middle
are a range, and any other byte stands for itself. So a dash at an edge can be read as the bound of
a range. Where that range runs downwards it holds no byte, the dash included, and the main statement
tells these expressions from all others with a dash at an edge. -/
namespace Backtrack.CharSet

variable {spec front rest : Bytes} {a b low high : UInt8}

/-- What follows a byte does not make it the lower bound of a range. -/
def Unbinding (rest : Bytes) : Prop := rest.head? = some 0x2D → rest = [0x2D]

theorem unbinding_nil : Unbinding [] := nofun

theorem binds_or_unbinding (rest : Bytes) :
    (∃ high later, rest = 0x2D :: high :: later) ∨ Unbinding rest := by
  match rest with
  | [] => exact .inr unbinding_nil
  | [_] => exact .inr fun bound => congrArg ([·]) (Option.some.inj bound)
  | mid :: high :: later =>
    by_cases bound : mid = 0x2D
    · exact .inl ⟨high, later, by rw [bound]⟩
    · exact .inr fun dash => absurd (Option.some.inj dash) bound

theorem insertSpec_range (s : CharSet) (low high : UInt8) (rest : Bytes) :
    insertSpec s (low :: 0x2D :: high :: rest) = insertSpec (s.insertRange low high) rest := by
  simp [insertSpec]

theorem insertSpec_byte (s : CharSet) (b : UInt8) (unbinding : Unbinding rest) :
    insertSpec s (b :: rest) = insertSpec (s.insert b) rest := by
  match rest with
  | [] => rfl
  | [_] => rfl
  | mid :: high :: later =>
    have other : mid ≠ 0x2D := by
      rintro rfl
      cases unbinding rfl
    simp [insertSpec, other]

/-- An expression is empty, or begins with a range, or begins with a byte that stands for
itself. -/
@[elab_as_elim]
theorem spec_induction {motive : Bytes → Prop} (spec : Bytes) (nil : motive [])
    (range : ∀ low high rest, motive rest → motive (low :: 0x2D :: high :: rest))
    (byte : ∀ b rest, Unbinding rest → motive rest → motive (b :: rest)) : motive spec :=
  match spec with
  | [] => nil
  | b :: rest => by
    rcases binds_or_unbinding rest with ⟨high, later, rfl⟩ | unbinding
    · exact range b high later (spec_induction later nil range byte)
    · exact byte b rest unbinding (spec_induction rest nil range byte)
termination_by spec.length

theorem contains_insertSpec (s : CharSet) :
    (insertSpec s spec).contains b = true ↔ s.contains b = true ∨ (parse spec).contains b = true := by
  induction spec using spec_induction generalizing s with
  | nil => simp [parse, insertSpec, not_contains_empty]
  | range low high rest ih =>
    rw [parse, insertSpec_range, insertSpec_range, ih, ih (empty.insertRange low high),
      contains_insertRange, contains_insertRange, or_iff_left (not_contains_empty b), or_assoc,
      or_left_comm]
  | byte a rest unbinding ih =>
    rw [parse, insertSpec_byte _ _ unbinding, insertSpec_byte _ _ unbinding, ih,
      ih (empty.insert a), contains_insert, contains_insert, or_iff_left (not_contains_empty b),
      or_assoc, or_left_comm]

theorem contains_parse_range :
    (parse (low :: 0x2D :: high :: rest)).contains b = true ↔
      (low ≤ b ∧ b ≤ high) ∨ (parse rest).contains b = true := by
  rw [parse, insertSpec_range, contains_insertSpec, contains_insertRange,
    or_iff_left (not_contains_empty b)]

theorem contains_parse_byte (unbinding : Unbinding rest) :
    (parse (a :: rest)).contains b = true ↔ b = a ∨ (parse rest).contains b = true := by
  rw [parse, insertSpec_byte _ _ unbinding, contains_insertSpec, contains_insert,
    or_iff_left (not_contains_empty b)]

theorem contains_alpha (b : UInt8) :
    alpha.contains b = true ↔ (0x41 ≤ b ∧ b ≤ 0x5A) ∨ (0x61 ≤ b ∧ b ≤ 0x7A) := by
  change (parse [0x61, 0x2D, 0x7A, 0x41, 0x2D, 0x5A]).contains b = true ↔ _
  rw [contains_parse_range, contains_parse_range, or_comm]
  refine or_congr_left (or_iff_left ?_)
  exact not_contains_empty b

theorem contains_alnum (b : UInt8) :
    alnum.contains b = true ↔ alpha.contains b = true ∨ (0x30 ≤ b ∧ b ≤ 0x39) := by
  rw [alnum, contains_union, digit, contains_range]

/-- The dash in front opens a range that runs downwards, and the rest says no dash. -/
def LosesFirst (spec : Bytes) : Prop :=
  ∃ high rest, spec = 0x2D :: 0x2D :: high :: rest ∧ high < 0x2D ∧
    ¬ (parse rest).contains 0x2D = true

/-- The dash at the end closes a range that runs downwards, and the bytes before that range say no
dash. -/
def LosesLast (spec : Bytes) : Prop :=
  ∃ front low, spec = front ++ [low, 0x2D, 0x2D] ∧ 0x2D < low ∧
    ¬ (parse front).contains 0x2D = true

theorem LosesFirst.not_contains (loses : LosesFirst spec) :
    ¬ (parse spec).contains 0x2D = true := by
  obtain ⟨high, rest, rfl, down, free⟩ := loses
  rw [contains_parse_range]
  rintro (⟨-, reached⟩ | said)
  · exact absurd down (UInt8.not_lt.mpr reached)
  · exact free said

theorem losesFirst_of_not_contains (lost : ¬ (parse (0x2D :: rest)).contains 0x2D = true) :
    LosesFirst (0x2D :: rest) := by
  rcases binds_or_unbinding rest with ⟨high, later, rfl⟩ | unbinding
  · rw [contains_parse_range, not_or] at lost
    refine ⟨high, later, rfl, UInt8.not_le.mp fun reached => ?_, lost.2⟩
    exact lost.1 ⟨UInt8.le_refl _, reached⟩
  · rw [contains_parse_byte unbinding, not_or] at lost
    exact (lost.1 rfl).elim

/-- Bytes that say no dash do not end in the middle of a range, so what is put behind them is read
apart. -/
theorem LosesLast.not_contains (loses : LosesLast spec) : ¬ (parse spec).contains 0x2D = true := by
  obtain ⟨front, low, rfl, down, free⟩ := loses
  induction front using spec_induction with
  | nil =>
    rw [List.nil_append, contains_parse_range]
    rintro (⟨reached, -⟩ | said)
    · exact absurd down (UInt8.not_lt.mpr reached)
    · exact not_contains_empty _ said
  | range low' high rest ih =>
    rw [contains_parse_range, not_or] at free
    rw [List.cons_append, List.cons_append, List.cons_append, contains_parse_range, not_or]
    exact ⟨free.1, ih free.2⟩
  | byte a rest unbinding ih =>
    rw [contains_parse_byte unbinding, not_or] at free
    -- A lone dash behind `a` would open a range with what is put behind, but such a dash is said.
    have apart : Unbinding (rest ++ [low, 0x2D, 0x2D]) := by
      cases rest with
      | nil => exact fun bound => absurd (Option.some.inj bound) (UInt8.ne_of_lt down).symm
      | cons mid later =>
        intro bound
        have alone := unbinding bound
        rw [alone] at free
        exact (free.2 ((contains_parse_byte unbinding_nil).mpr (.inl rfl))).elim
    rw [List.cons_append, contains_parse_byte apart, not_or]
    exact ⟨free.1, ih free.2⟩

theorem losesLast_of_not_contains (ends : spec.getLast? = some 0x2D)
    (lost : ¬ (parse spec).contains 0x2D = true) : LosesLast spec := by
  induction spec using spec_induction with
  | nil => cases ends
  | range low high rest ih =>
    rw [contains_parse_range, not_or] at lost
    cases rest with
    | nil =>
      obtain rfl : high = 0x2D := by simpa using ends
      refine ⟨[], low, rfl, UInt8.not_le.mp fun reached => ?_, not_contains_empty _⟩
      exact lost.1 ⟨reached, UInt8.le_refl _⟩
    | cons c rest =>
      obtain ⟨front, low', parts, down, free⟩ := ih (by simpa using ends) lost.2
      refine ⟨low :: 0x2D :: high :: front, low', by rw [parts]; rfl, down, ?_⟩
      rw [contains_parse_range, not_or]
      exact ⟨lost.1, free⟩
  | byte a rest unbinding ih =>
    rw [contains_parse_byte unbinding, not_or] at lost
    cases rest with
    | nil =>
      obtain rfl : a = 0x2D := by simpa using ends
      exact (lost.1 rfl).elim
    | cons c rest =>
      obtain ⟨front, low, parts, down, free⟩ := ih (by simpa using ends) lost.2
      -- `a` stands for itself before the whole rest, which begins as `front` does.
      have apart : Unbinding front := by
        cases front with
        | nil => exact unbinding_nil
        | cons mid later =>
          intro bound
          have alone := unbinding (by rw [parts]; exact bound)
          simp [parts] at alone
      refine ⟨a :: front, low, by rw [parts]; rfl, down, ?_⟩
      rw [contains_parse_byte apart, not_or]
      exact ⟨lost.1, free⟩

/-- An expression with a dash at an edge holds the dash, unless that dash bounds a range that runs
downwards and nothing else says it. -/
theorem parse_keeps_edge_dash (spec : Bytes)
    (edge : spec.head? = some 0x2D ∨ spec.getLast? = some 0x2D) :
    (parse spec).contains 0x2D = true ↔ ¬ LosesFirst spec ∧ ¬ LosesLast spec := by
  constructor
  · intro kept
    exact ⟨fun loses => loses.not_contains kept, fun loses => loses.not_contains kept⟩
  · rintro ⟨first, last⟩
    refine Decidable.byContradiction fun lost => ?_
    rcases edge with starts | ends
    · obtain ⟨rest, rfl⟩ := List.head?_eq_some_iff.mp starts
      exact first (losesFirst_of_not_contains lost)
    · exact last (losesLast_of_not_contains ends lost)

/-- A range before, and a range down to the last dash. -/
theorem parse_keeps_edge_dash_downward :
    let spec := Text.utf8 "a-zz--"
    spec.getLast? = some 0x2D ∧ LosesLast spec ∧ ¬ (parse spec).contains 0x2D = true := by
  intro spec
  have ends : spec.getLast? = some 0x2D := by decide
  have loses : LosesLast spec := ⟨Text.utf8 "a-z", 0x7A, by decide, by decide, by decide⟩
  exact ⟨ends, loses, fun kept => ((parse_keeps_edge_dash spec (.inr ends)).mp kept).2 loses⟩

/-- A dash in front, and nothing is said at all. -/
theorem first_dash_lost :
    ¬ ∀ spec : Bytes, (spec.head? = some 0x2D ∨ spec.getLast? = some 0x2D) →
      (parse spec).contains 0x2D = true := by
  intro kept
  exact absurd (kept (Text.utf8 "--!") (.inl (by decide))) (by decide)

end Backtrack.CharSet
