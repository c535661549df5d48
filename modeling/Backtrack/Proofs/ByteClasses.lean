import Backtrack.CharSet

/-! Membership in byte classes. Each operation is told by the bytes that its result holds, and a
class is determined by the bytes that it holds. -/
namespace Backtrack.CharSet

theorem every_byte {P : UInt8 → Prop} [DecidablePred P] (all : ∀ n : Fin 256, P (.ofFin n))
    (b : UInt8) : P b := by
  have here := all b.toFin
  simpa using here

theorem eq_of_contains {s t : CharSet} (same : ∀ b, s.contains b = t.contains b) : s = t := by
  obtain ⟨bits⟩ := s
  obtain ⟨bits'⟩ := t
  congr 1
  refine BitVec.eq_of_getLsbD_eq fun i small => ?_
  have here := same (.ofNat i)
  rwa [contains, contains, UInt8.toNat_ofNat_of_lt' small] at here

variable (s t : CharSet) (a b low high : UInt8)

theorem not_contains_empty : ¬ empty.contains b = true := by
  simp [contains, empty]

theorem contains_full : full.contains b = true := by
  have small : b.toNat < 256 := b.toNat_lt
  rw [contains, full, BitVec.getLsbD_allOnes, decide_eq_true small]

theorem contains_insert : (s.insert a).contains b = true ↔ b = a ∨ s.contains b = true := by
  have small := a.toNat_lt
  simp only [contains, insert, BitVec.getLsbD_or, BitVec.getLsbD_twoPow, Bool.or_eq_true,
    Bool.and_eq_true, decide_eq_true_eq, UInt8.toNat_inj]
  grind

theorem contains_foldl_insert (bytes : Bytes) :
    (bytes.foldl insert s).contains b = true ↔ b ∈ bytes ∨ s.contains b = true := by
  induction bytes generalizing s with
  | nil => simp
  | cons a bytes ih =>
    rw [List.foldl_cons, ih, contains_insert, List.mem_cons, or_left_comm, or_assoc]

theorem contains_ofBytes (bytes : Bytes) : (ofBytes bytes).contains b = true ↔ b ∈ bytes := by
  rw [ofBytes, contains_foldl_insert, or_iff_left (not_contains_empty b)]

theorem contains_byte : (ofBytes [a]).contains b = true ↔ b = a := by
  rw [contains_ofBytes, List.mem_singleton]

theorem contains_ofBytes_singleton : (ofBytes [b]).contains b = true :=
  (contains_byte b b).mpr rfl

/-- A range that runs downwards adds nothing. -/
theorem contains_insertRange :
    (s.insertRange low high).contains b = true ↔ (low ≤ b ∧ b ≤ high) ∨ s.contains b = true := by
  have small := b.toNat_lt
  have top := high.toNat_lt
  rw [insertRange, ← List.foldl_map, contains_foldl_insert]
  refine or_congr_left ?_
  simp only [List.mem_map, List.mem_range'_1, UInt8.le_iff_toNat_le]
  constructor
  · rintro ⟨n, within, rfl⟩
    rw [UInt8.toNat_ofNat_of_lt' (by grind)]
    omega
  · intro between
    exact ⟨b.toNat, by omega, UInt8.ofNat_toNat⟩

theorem contains_range : (range low high).contains b = true ↔ low ≤ b ∧ b ≤ high := by
  rw [range, contains_insertRange, or_iff_left (not_contains_empty b)]

theorem contains_union :
    (s ∪ t).contains b = true ↔ s.contains b = true ∨ t.contains b = true := by
  change (s.bits ||| t.bits).getLsbD b.toNat = true ↔ _
  rw [BitVec.getLsbD_or, Bool.or_eq_true, contains, contains]

theorem contains_sdiff :
    (s \ t).contains b = true ↔ s.contains b = true ∧ ¬ t.contains b = true := by
  have small : b.toNat < 256 := b.toNat_lt
  change (s.bits &&& ~~~t.bits).getLsbD b.toNat = true ↔ _
  simp [contains, small]

theorem contains_compl : (~~~s).contains b = true ↔ ¬ s.contains b = true := by
  change (full \ s).contains b = true ↔ _
  rw [contains_sdiff, and_iff_right (contains_full b)]

end Backtrack.CharSet
