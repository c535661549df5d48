import Backtrack.Proofs.ByteClasses

/-! How a byte class prints. Its runs are ranges in ascending order that hold just its bytes, with a
gap between any two of them. The text lists the runs, each bound in two digits, so it tells the class
that it was printed from. -/
namespace Backtrack.CharSet

variable {s t : CharSet} {b : UInt8} {runs : List (UInt8 × UInt8)} {holds : UInt8 → Prop}

/-- Ranges in ascending order, none of them empty and no two of them touching, that together hold
certain bytes. -/
structure MaximalRuns (runs : List (UInt8 × UInt8)) (holds : UInt8 → Prop) : Prop where
  upward : ∀ run ∈ runs, run.1 ≤ run.2
  apart : runs.Pairwise fun run later => run.2.toNat + 1 < later.1.toNat
  covers : ∀ b, holds b ↔ ∃ run ∈ runs, run.1 ≤ b ∧ b ≤ run.2

namespace MaximalRuns

theorem congr {holds' : UInt8 → Prop} (maximal : MaximalRuns runs holds)
    (same : ∀ b, holds b ↔ holds' b) : MaximalRuns runs holds' :=
  ⟨maximal.upward, maximal.apart, fun b => (same b).symm.trans (maximal.covers b)⟩

theorem first_held {low high : UInt8} {later : List (UInt8 × UInt8)}
    (maximal : MaximalRuns ((low, high) :: later) holds) : holds low := by
  have first := List.mem_cons_self (a := (low, high)) (l := later)
  exact (maximal.covers low).mpr ⟨_, first, UInt8.le_refl low, maximal.upward _ first⟩

/-- A byte below all others either lengthens the first run or is a run of its own. -/
theorem extend (maximal : MaximalRuns runs holds) (below : ∀ c, holds c → b < c) :
    MaximalRuns (extend b runs) fun c => c = b ∨ holds c := by
  match runs with
  | [] =>
    have bare (c : UInt8) : ¬ holds c := fun held => by simpa using (maximal.covers c).mp held
    refine ⟨by simp [CharSet.extend], List.pairwise_singleton .., fun c => ?_⟩
    simp only [CharSet.extend, List.mem_singleton, exists_eq_left, bare, or_false,
      ← UInt8.toNat_inj, UInt8.le_iff_toNat_le]
    omega
  | (low, high) :: later =>
    -- The first run starts with a held byte, so it lies above `b`, and every other run above it.
    have under := UInt8.lt_iff_toNat_lt.mp (below low maximal.first_held)
    obtain ⟨wide, wider⟩ := List.forall_mem_cons.mp maximal.upward
    obtain ⟨gap, gaps⟩ := List.pairwise_cons.mp maximal.apart
    have covers := maximal.covers
    simp only [List.mem_cons, exists_eq_or_imp, UInt8.le_iff_toNat_le] at wide covers
    by_cases touching : b.toNat + 1 = low.toNat
    · rw [CharSet.extend, if_pos touching]
      refine ⟨List.forall_mem_cons.mpr ⟨?_, wider⟩, List.pairwise_cons.mpr ⟨gap, gaps⟩, fun c => ?_⟩
      · simp only [UInt8.le_iff_toNat_le]
        omega
      · simp only [List.mem_cons, exists_eq_or_imp, covers, ← or_assoc, UInt8.le_iff_toNat_le,
          ← UInt8.toNat_inj]
        refine or_congr_left ?_
        omega
    · rw [CharSet.extend, if_neg touching]
      refine ⟨List.forall_mem_cons.mpr ⟨UInt8.le_refl b, maximal.upward⟩,
        List.pairwise_cons.mpr ⟨List.forall_mem_cons.mpr ⟨?_, fun run member => ?_⟩, maximal.apart⟩,
        fun c => ?_⟩
      · change b.toNat + 1 < low.toNat
        omega
      · have beyond : high.toNat + 1 < run.1.toNat := gap run member
        change b.toNat + 1 < run.1.toNat
        omega
      · simp only [List.mem_cons, exists_eq_or_imp, covers, UInt8.le_iff_toNat_le,
          ← UInt8.toNat_inj]
        refine or_congr_left ?_
        omega

end MaximalRuns

theorem mem_members : b ∈ s.members ↔ s.contains b = true := by
  have small := b.toNat_lt
  simp only [members, List.mem_filter, List.mem_map, List.mem_range, and_iff_right_iff_imp]
  exact fun _ => ⟨b.toNat, small, UInt8.ofNat_toNat⟩

theorem members_ascend (s : CharSet) : s.members.Pairwise (· < ·) := by
  refine List.Pairwise.filter _ (List.pairwise_map.mpr ?_)
  refine List.Pairwise.imp_of_mem (fun inside inside' lt => ?_) List.pairwise_lt_range
  rw [List.mem_range] at inside inside'
  rwa [UInt8.lt_iff_toNat_lt, UInt8.toNat_ofNat_of_lt' inside, UInt8.toNat_ofNat_of_lt' inside']

theorem maximalRuns_foldr {bytes : Bytes} (ascends : bytes.Pairwise (· < ·)) :
    MaximalRuns (bytes.foldr extend []) (· ∈ bytes) := by
  -- The runs are put together from the last byte on, so each byte comes below all before it.
  induction bytes with
  | nil => exact ⟨nofun, .nil, fun b => by simp⟩
  | cons b bytes ih =>
    obtain ⟨below, ascends⟩ := List.pairwise_cons.mp ascends
    exact ((ih ascends).extend below).congr fun c => List.mem_cons.symm

theorem maximalRuns_runs (s : CharSet) : MaximalRuns s.runs fun b => s.contains b = true :=
  (maximalRuns_foldr s.members_ascend).congr fun _ => mem_members

theorem eq_of_runs (same : s.runs = t.runs) : s = t := by
  refine eq_of_contains fun b => Bool.eq_iff_iff.mpr ?_
  rw [s.maximalRuns_runs.covers, same, t.maximalRuns_runs.covers]

/-! What is printed. -/

theorem digitChar_inj {m n : Nat} (small : m < 16) (small' : n < 16)
    (same : m.digitChar = n.digitChar) : m = n := by
  have all : ∀ m < 16, ∀ n < 16, m.digitChar = n.digitChar → m = n := by decide
  exact all m small n small' same

theorem digitChar_ne_space {n : Nat} (small : n < 16) : ' ' ≠ n.digitChar := by
  have all : ∀ n < 16, ' ' ≠ n.digitChar := by decide
  exact all n small

theorem toList_hexByte (b : UInt8) :
    (hexByte b).toList = ['0', 'x', (b.toNat / 16).digitChar, (b.toNat % 16).digitChar] := by
  have byte := b.toNat_lt
  by_cases one : b < 16
  · have small : b.toNat < 16 := UInt8.lt_iff_toNat_lt.mp one
    simp [hexByte, Text.hex, one, Nat.toDigits_of_lt_base small, Nat.div_eq_of_lt small,
      Nat.mod_eq_of_lt small]
  · have large : 16 ≤ b.toNat := UInt8.le_iff_toNat_le.mp (UInt8.not_lt.mp one)
    have first : b.toNat / 16 < 16 := by omega
    simp [hexByte, Text.hex, one, Nat.toDigits_of_base_le (by decide) large,
      Nat.toDigits_of_lt_base first]

theorem hexByte_inj {b c : UInt8} (same : (hexByte b).toList = (hexByte c).toList) : b = c := by
  rw [toList_hexByte, toList_hexByte] at same
  simp only [List.cons.injEq, true_and, and_true] at same
  have small := b.toNat_lt
  have small' := c.toNat_lt
  have first := digitChar_inj (by omega) (by omega) same.1
  have second := digitChar_inj (by omega) (by omega) same.2
  exact UInt8.toNat_inj.mp (by omega)

theorem toList_renderRun (low high : UInt8) :
    (renderRun (low, high)).toList =
      (hexByte low).toList ++ if low = high then [] else '-' :: (hexByte high).toList := by
  simp only [renderRun]
  split <;> simp

theorem renderRun_inj {run run' : UInt8 × UInt8}
    (same : (renderRun run).toList = (renderRun run').toList) : run = run' := by
  obtain ⟨low, high⟩ := run
  obtain ⟨low', high'⟩ := run'
  rw [toList_renderRun, toList_renderRun] at same
  obtain ⟨lows, highs⟩ := List.append_inj same (by simp only [toList_hexByte, List.length_cons])
  obtain rfl := hexByte_inj lows
  split at highs <;> split at highs
  case isTrue.isTrue single single' => rw [← single, ← single']
  case isTrue.isFalse => cases highs
  case isFalse.isTrue => cases highs
  case isFalse.isFalse =>
    rw [hexByte_inj (List.cons.inj highs).2]

theorem renderRun_solid (run : UInt8 × UInt8) :
    (renderRun run).toList ≠ [] ∧ ' ' ∉ (renderRun run).toList := by
  have plain (b : UInt8) : ' ' ∉ (hexByte b).toList := by
    have small := b.toNat_lt
    rw [toList_hexByte]
    have first := digitChar_ne_space (n := b.toNat / 16) (by omega)
    have second := digitChar_ne_space (n := b.toNat % 16) (by omega)
    simp [first, second]
  obtain ⟨low, high⟩ := run
  rw [toList_renderRun]
  refine ⟨by simp [toList_hexByte], ?_⟩
  rw [List.mem_append, not_or]
  refine ⟨plain low, ?_⟩
  split
  · exact List.not_mem_nil
  · rw [List.mem_cons, not_or]
    exact ⟨by decide, plain high⟩

/-- Words without the separator can be told apart in what is joined of them. -/
theorem intercalate_inj {sep : Char} {words words' : List (List Char)}
    (solid : ∀ word ∈ words, word ≠ [] ∧ sep ∉ word)
    (solid' : ∀ word ∈ words', word ≠ [] ∧ sep ∉ word)
    (same : [sep].intercalate words = [sep].intercalate words') : words = words' := by
  have parts {words : List (List Char)} (solid : ∀ word ∈ words, word ≠ [] ∧ sep ∉ word) :
      words = (([sep].intercalate words).splitOn sep).filter (· ≠ []) := by
    cases words with
    | nil => rfl
    | cons word words =>
      rw [List.splitOn_intercalate sep (fun word member => (solid word member).2)
        (by simp)]
      exact (List.filter_eq_self.mpr fun word member => by simpa using (solid word member).1).symm
  rw [parts solid, same, ← parts solid']

theorem runs_of_render (same : s.render = t.render) : s.runs = t.runs := by
  have joined := congrArg String.toList ((String.append_right_inj _).mp
    ((String.append_left_inj _).mp same))
  rw [String.toList_intercalate, String.toList_intercalate, List.map_map, List.map_map] at joined
  have solid (runs : List (UInt8 × UInt8)) :
      ∀ word ∈ runs.map (String.toList ∘ renderRun), word ≠ [] ∧ ' ' ∉ word := by
    rintro word member
    obtain ⟨run, -, rfl⟩ := List.mem_map.mp member
    exact renderRun_solid run
  exact (List.map_inj_right fun _ _ => renderRun_inj).mp
    (intercalate_inj (solid s.runs) (solid t.runs) joined)

/-- A class prints its maximal runs in ascending order, and classes that print alike are one. -/
theorem render_tells_class (s t : CharSet) :
    (∃ runs, MaximalRuns runs (fun b => s.contains b = true) ∧
      s.render = "CharSet[" ++ " ".intercalate (runs.map renderRun) ++ "]") ∧
    (s.render = t.render ↔ s = t) := by
  refine ⟨⟨s.runs, s.maximalRuns_runs, rfl⟩, fun same => ?_, congrArg render⟩
  exact eq_of_runs (runs_of_render same)

/-- Two runs, the second up to the last byte. -/
example : ((range 0x30 0x39).insert 0x09 ∪ range 0xFE 0xFF).render =
    "CharSet[0x09 0x30-0x39 0xfe-0xff]" := by decide +kernel

end Backtrack.CharSet
