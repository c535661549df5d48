import Backtrack.Text.Utf8
import Mathlib.Tactic.IntervalCases

/-! Text and its bytes. What is written as UTF-8 is read back character by character. -/
namespace Backtrack.Text

/-- Reading one continuation byte in its range. -/
theorem follow_within {low high : UInt8} {n value : Nat} (tails : List (UInt8 × UInt8))
    (rest : Bytes) (small : n < 64) (above : low.toNat ≤ n + 128) (below : n + 128 ≤ high.toNat) :
    follow ((low, high) :: tails) value (UInt8.ofNat (n + 128) :: rest) =
      follow tails (value * 64 + n) rest := by
  have byte : (UInt8.ofNat (n + 128)).toNat = n + 128 := by
    rw [UInt8.toNat_ofNat_of_lt' (by simp [UInt8.size]; omega)]
  rw [follow, if_pos ⟨UInt8.le_iff_toNat_le.mpr (by omega), UInt8.le_iff_toNat_le.mpr (by omega)⟩,
    byte]
  congr 1
  omega

theorem follow_tail {n value : Nat} (tails : List (UInt8 × UInt8)) (rest : Bytes) (small : n < 64) :
    follow (tail :: tails) value (UInt8.ofNat (n + 128) :: rest) =
      follow tails (value * 64 + n) rest :=
  follow_within tails rest small (by simp) (by simp; omega)

/-- Reading a character whose leading byte and continuation bytes are known. -/
theorem scan_char {b : UInt8} {lead : Lead} {bytes rest : Bytes} {c : Char}
    (leads : lead? b = some lead)
    (follows : follow lead.tails lead.bits (bytes ++ rest) = (some c.toNat, rest)) :
    scan (b :: (bytes ++ rest)) = some c :: scan rest := by
  rw [scan, leads]
  simp [follows]

theorem lead?_one {n : Nat} (small : n < 128) : lead? (UInt8.ofNat n) = some ⟨n, []⟩ := by
  have byte : (UInt8.ofNat n).toNat = n :=
    UInt8.toNat_ofNat_of_lt' (by simp only [UInt8.size]; omega)
  have below : UInt8.ofNat n < 0x80 := UInt8.lt_iff_toNat_lt.mpr (byte.symm ▸ small)
  rw [lead?, if_pos below, byte]

theorem lead?_two {n : Nat} (least : 2 ≤ n) (small : n < 32) :
    lead? (UInt8.ofNat (n + 192)) = some ⟨n, [tail]⟩ := by
  interval_cases n <;> rfl

/-- The leading bytes of three with a narrowed second one are those for 0 and for 13. -/
theorem lead?_three {n : Nat} (least : 1 ≤ n) (small : n < 16) (other : n ≠ 13) :
    lead? (UInt8.ofNat (n + 224)) = some ⟨n, [tail, tail]⟩ := by
  interval_cases n <;> first | rfl | contradiction

theorem lead?_four {n : Nat} (least : 1 ≤ n) (small : n < 4) :
    lead? (UInt8.ofNat (n + 240)) = some ⟨n, [tail, tail, tail]⟩ := by
  interval_cases n <;> rfl

section

variable {c : Char} (rest : Bytes)

theorem scan_two (least : 0x80 ≤ c.toNat) (most : c.toNat ≤ 0x7FF) :
    scan ([UInt8.ofNat (c.toNat / 64 % 32 + 192), UInt8.ofNat (c.toNat % 64 + 128)] ++ rest) =
      some c :: scan rest := by
  refine scan_char (lead?_two (by omega) (by omega)) ?_
  simp only [List.cons_append, List.nil_append, Nat.mod_lt, follow_tail, follow, Nat.ofNat_pos]
  congr 2
  omega

theorem scan_three (least : 0x800 ≤ c.toNat) (most : c.toNat ≤ 0xFFFF) :
    scan ([UInt8.ofNat (c.toNat / 4096 % 16 + 224), UInt8.ofNat (c.toNat / 64 % 64 + 128),
      UInt8.ofNat (c.toNat % 64 + 128)] ++ rest) = some c :: scan rest := by
  have valid : c.toNat < 0xD800 ∨ 0xDFFF < c.toNat ∧ c.toNat < 0x110000 := c.valid
  have value : (c.toNat / 4096 % 16 * 64 + c.toNat / 64 % 64) * 64 + c.toNat % 64 = c.toNat := by
    omega
  by_cases first : c.toNat / 4096 % 16 = 0
  · have leads : lead? (UInt8.ofNat (0 + 224)) = some ⟨0, [(0xA0, 0xBF), tail]⟩ := rfl
    rw [first] at value ⊢
    refine scan_char leads ?_
    dsimp only [List.cons_append, List.nil_append]
    rw [follow_within _ _ (by omega) (by simp; omega) (by simp; omega), follow_tail _ _ (by omega),
      value, follow]
  · by_cases last : c.toNat / 4096 % 16 = 13
    · have leads : lead? (UInt8.ofNat (13 + 224)) = some ⟨13, [(0x80, 0x9F), tail]⟩ := rfl
      rw [last] at value ⊢
      refine scan_char leads ?_
      dsimp only [List.cons_append, List.nil_append]
      rw [follow_within _ _ (by omega) (by simp) (by simp; omega), follow_tail _ _ (by omega),
        value, follow]
    · refine scan_char (lead?_three (by omega) (by omega) last) ?_
      dsimp only [List.cons_append, List.nil_append]
      rw [follow_tail _ _ (by omega), follow_tail _ _ (by omega), value, follow]

theorem scan_four (least : 0x10000 ≤ c.toNat) :
    scan ([UInt8.ofNat (c.toNat / 262144 % 8 + 240), UInt8.ofNat (c.toNat / 4096 % 64 + 128),
      UInt8.ofNat (c.toNat / 64 % 64 + 128), UInt8.ofNat (c.toNat % 64 + 128)] ++ rest) =
      some c :: scan rest := by
  have valid : c.toNat < 0xD800 ∨ 0xDFFF < c.toNat ∧ c.toNat < 0x110000 := c.valid
  have value : ((c.toNat / 262144 % 8 * 64 + c.toNat / 4096 % 64) * 64 + c.toNat / 64 % 64) * 64 +
      c.toNat % 64 = c.toNat := by omega
  by_cases first : c.toNat / 262144 % 8 = 0
  · have leads : lead? (UInt8.ofNat (0 + 240)) = some ⟨0, [(0x90, 0xBF), tail, tail]⟩ := rfl
    rw [first] at value ⊢
    refine scan_char leads ?_
    dsimp only [List.cons_append, List.nil_append]
    rw [follow_within _ _ (by omega) (by simp; omega) (by simp; omega), follow_tail _ _ (by omega),
      follow_tail _ _ (by omega), value, follow]
  · by_cases last : c.toNat / 262144 % 8 = 4
    · have leads : lead? (UInt8.ofNat (4 + 240)) = some ⟨4, [(0x80, 0x8F), tail, tail]⟩ := rfl
      rw [last] at value ⊢
      refine scan_char leads ?_
      dsimp only [List.cons_append, List.nil_append]
      rw [follow_within _ _ (by omega) (by simp) (by simp; omega), follow_tail _ _ (by omega),
        follow_tail _ _ (by omega), value, follow]
    · refine scan_char (lead?_four (by omega) (by omega)) ?_
      dsimp only [List.cons_append, List.nil_append]
      rw [follow_tail _ _ (by omega), follow_tail _ _ (by omega), follow_tail _ _ (by omega), value,
        follow]

theorem scan_encodeChar (c : Char) :
    scan (String.utf8EncodeChar c ++ rest) = some c :: scan rest := by
  simp only [String.utf8EncodeChar, Char.toNat_val]
  split
  next ascii =>
    have follows : follow [] c.toNat ([] ++ rest) = (some c.toNat, rest) := rfl
    exact scan_char (lead?_one (Nat.lt_succ_of_le ascii)) follows
  · split
    next most => exact scan_two rest (by omega) most
    · split
      next most => exact scan_three rest (by omega) most
      next least => exact scan_four rest (by omega)

end

theorem scan_utf8 (text : String) : scan (utf8 text) = text.toList.map some := by
  unfold utf8
  induction text.toList with
  | nil => rw [List.flatMap_nil, scan, List.map_nil]
  | cons c cs ih => rw [List.flatMap_cons, scan_encodeChar, ih, List.map_cons]

/-- Text survives being written down. -/
theorem strict?_utf8 (text : String) : strict? (utf8 text) = some text := by
  have read (cs : List Char) : (cs.map some).mapM id = some cs := by
    induction cs with
    | nil => rfl
    | cons c cs ih => simp [ih]
  rw [strict?, scan_utf8, read, Option.map_some, String.ofList_toList]

end Backtrack.Text
