import Mathlib.Data.List.Count
import Backtrack.Lines

/-! What the line table says. The line of an offset is one more than the line feeds before it, and
its column counts from behind the last of them. Bytes put in front of a text move a line down by
their line feeds, and a column only on the first line. -/
namespace Backtrack

/-- How many line feeds stand in a text. -/
def lineFeeds (bytes : Bytes) : Nat := bytes.count 0x0A

/-- Where the last line of a text starts. -/
def lastLine : Bytes → Nat
  | [] => 0
  | b :: bytes => if b = 0x0A ∨ 0x0A ∈ bytes then lastLine bytes + 1 else 0

/-- Where the lines behind the first one start, in a text that begins at `next`. -/
def lineStarts : Nat → Bytes → List Nat
  | _, [] => []
  | next, b :: bytes =>
    if b = 0x0A then (next + 1) :: lineStarts (next + 1) bytes else lineStarts (next + 1) bytes

@[simp] theorem lineFeeds_append (x y : Bytes) : lineFeeds (x ++ y) = lineFeeds x + lineFeeds y :=
  List.count_append ..

theorem lastLine_append (x y : Bytes) :
    lastLine (x ++ y) = if 0x0A ∈ y then x.length + lastLine y else lastLine x := by
  induction x with
  | nil => cases y <;> grind [lastLine]
  | cons b x ih =>
    simp only [List.cons_append, lastLine, ih, List.mem_append, List.length_cons]
    grind

theorem lastLine_le (bytes : Bytes) : lastLine bytes ≤ bytes.length := by
  induction bytes with
  | nil => exact Nat.le_refl 0
  | cons b bytes ih =>
    simp only [lastLine, List.length_cons]
    split <;> omega

section Starts

variable (next k : Nat) (bytes : Bytes)

theorem lineStarts_gt (bytes : Bytes) : ∀ start ∈ lineStarts next bytes, next < start := by
  induction bytes generalizing next with
  | nil => exact List.forall_mem_nil _
  | cons b bytes ih =>
    have later := ih (next + 1)
    simp only [lineStarts]
    split <;> grind

/-- The lines that start up to some place are as many as the line feeds before it. -/
theorem countP_lineStarts :
    (lineStarts next bytes).countP (· ≤ next + k) = lineFeeds (bytes.take k) := by
  induction bytes generalizing next k with
  | nil => simp [lineStarts, lineFeeds]
  | cons b bytes ih =>
    cases k with
    | zero =>
      simp only [List.take_zero, lineFeeds, List.count_nil, List.countP_eq_zero]
      exact fun start member => by simpa using lineStarts_gt next (b :: bytes) start member
    | succ k =>
      have rest := ih (next + 1) k
      rw [Nat.add_right_comm] at rest
      simp only [lineStarts, lineFeeds, List.take_succ_cons, List.count_cons] at rest ⊢
      split <;> simp_all [Nat.add_assoc]

/-- The last line that starts up to some place starts behind the last line feed before it. -/
theorem getElem?_lineStarts :
    (next :: lineStarts next bytes)[lineFeeds (bytes.take k)]? =
      some (next + lastLine (bytes.take k)) := by
  induction bytes generalizing next k with
  | nil => simp [lineFeeds, lastLine]
  | cons b bytes ih =>
    cases k with
    | zero => simp [lineFeeds, lastLine]
    | succ k =>
      have rest := ih (next + 1) k
      by_cases fed : b = 0x0A
      · subst fed
        simp only [lineFeeds, List.take_succ_cons, List.count_cons_self, lineStarts, if_true,
          List.getElem?_cons_succ, lastLine, true_or] at rest ⊢
        rw [rest]
        congr 1
        omega
      · have same : lineFeeds ((b :: bytes).take (k + 1)) = lineFeeds (bytes.take k) := by
          simp [lineFeeds, List.count_cons_of_ne fed]
        rw [same]
        simp only [lineStarts, fed, if_false, List.take_succ_cons, lastLine, false_or]
        by_cases later : 0x0A ∈ bytes.take k
        · obtain ⟨n, count⟩ : ∃ n, lineFeeds (bytes.take k) = n + 1 :=
            Nat.exists_eq_succ_of_ne_zero (Nat.ne_of_gt (List.count_pos_iff.mpr later))
          rw [if_pos later]
          rw [count] at rest ⊢
          rw [List.getElem?_cons_succ] at rest ⊢
          rw [rest]
          congr 1
          omega
        · rw [if_neg later, lineFeeds, List.count_eq_zero_of_not_mem later]
          rfl

end Starts

namespace LineIndex

/-- The table lists where each line starts. -/
theorem starts_ofSource (source : Source) :
    (ofSource source).starts.toList = 0 :: lineStarts 0 source.toList := by
  have fold (bytes : Bytes) (next : Nat) (starts : Array Nat) :
      (bytes.foldl (fun (s : Nat × Array Nat) b =>
        (s.1 + 1, if b = 0x0A then s.2.push (s.1 + 1) else s.2)) (next, starts)).2.toList =
        starts.toList ++ lineStarts next bytes := by
    induction bytes generalizing next starts with
    | nil => simp [lineStarts]
    | cons b bytes ih =>
      rw [List.foldl_cons, ih, lineStarts]
      split <;> simp
  rw [ofSource, ← Array.foldl_toList]
  exact fold source.toList 0 #[0]

/-- Bisection ends where the starts begin to lie past the offset. -/
theorem countUpTo_parts {starts : Array Nat} (offset : Nat) {low high : Nat}
    (sorted : starts.toList.Pairwise (· < ·)) (ordered : low ≤ high)
    (below : ∀ i < low, starts.getD i (offset + 1) ≤ offset)
    (above : ∀ i, high ≤ i → offset < starts.getD i (offset + 1)) :
    (∀ i < countUpTo starts offset low high, starts.getD i (offset + 1) ≤ offset) ∧
    ∀ i, countUpTo starts offset low high ≤ i → offset < starts.getD i (offset + 1) := by
  have rises {i j : Nat} (le : i ≤ j) (late : offset < starts.getD i (offset + 1)) :
      offset < starts.getD j (offset + 1) := by
    rcases Nat.eq_or_lt_of_le le with rfl | lt
    · exact late
    by_cases inside : j < starts.size
    · have between := List.pairwise_iff_getElem.mp sorted i j (by simp; omega) (by simpa) lt
      simp only [Array.getElem_toList] at between
      simp only [Array.getD_eq_getD_getElem?, Array.getElem?_eq_getElem inside,
        Array.getElem?_eq_getElem (Nat.lt_trans lt inside), Option.getD_some] at late ⊢
      omega
    · simp [Array.getD_eq_getD_getElem?, Array.getElem?_eq_none (Nat.le_of_not_lt inside)]
  fun_induction countUpTo starts offset low high with
  | case1 low high apart mid early ih =>
    refine ih (by omega) (fun i lt => ?_) above
    exact Nat.le_of_not_lt fun late =>
      Nat.not_lt_of_le early (rises (Nat.le_of_lt_succ lt) late)
  | case2 low high apart mid late ih =>
    exact ih (by omega) below fun i le => rises le (Nat.lt_of_not_le late)
  | case3 low high together => exact ⟨below, fun i le => above i (by omega)⟩

/-- Bisection counts the starts at or before the offset. -/
theorem countUpTo_eq {starts : Array Nat} (sorted : starts.toList.Pairwise (· < ·))
    (offset : Nat) :
    countUpTo starts offset 0 starts.size = starts.toList.countP (· ≤ offset) := by
  have past (i : Nat) (outside : starts.size ≤ i) : offset < starts.getD i (offset + 1) := by
    simp [Array.getD_eq_getD_getElem?, Array.getElem?_eq_none outside]
  obtain ⟨below, above⟩ :=
    countUpTo_parts offset sorted (Nat.zero_le _) (fun i lt => nomatch lt) past
  generalize countUpTo starts offset 0 starts.size = count at below above ⊢
  have inside : count ≤ starts.size := Nat.le_of_not_lt fun outside =>
    Nat.not_lt_of_le (below starts.size outside) (past starts.size (Nat.le_refl _))
  have listed (i : Nat) (within : i < starts.toList.length) :
      starts.getD i (offset + 1) = starts.toList[i] := by
    simp only [Array.length_toList] at within
    simp [Array.getD_eq_getD_getElem?, within]
  rw [← List.take_append_drop count starts.toList, List.countP_append,
    List.countP_eq_length.mpr, List.countP_eq_zero.mpr]
  · simp [inside]
  · intro start member
    obtain ⟨i, within, rfl⟩ := List.mem_iff_getElem.mp member
    have late := above (count + i) (Nat.le_add_right ..)
    rw [listed _ (by simpa [Nat.lt_sub_iff_add_lt'] using within)] at late
    simpa [List.getElem_drop] using late
  · intro start member
    obtain ⟨i, within, rfl⟩ := List.mem_iff_getElem.mp member
    simp only [List.length_take, Array.length_toList] at within
    have early := below i (by omega)
    rw [listed _ (by simp; omega)] at early
    simpa [List.getElem_take] using early

theorem lineStarts_sorted (next : Nat) (bytes : Bytes) :
    (next :: lineStarts next bytes).Pairwise (· < ·) := by
  induction bytes generalizing next with
  | nil => exact List.pairwise_singleton ..
  | cons b bytes ih =>
    refine List.pairwise_cons.mpr ⟨lineStarts_gt next (b :: bytes), ?_⟩
    unfold lineStarts
    split
    · exact ih (next + 1)
    · exact (List.pairwise_cons.mp (ih (next + 1))).2

/-- The first line starts at 0, so some start is counted for every offset. -/
theorem countUpTo_ofSource (source : Source) (offset : Nat) :
    max 1 (countUpTo (ofSource source).starts offset 0 (ofSource source).starts.size) =
      lineFeeds (source.toList.take offset) + 1 := by
  have listed := starts_ofSource source
  have rest := countP_lineStarts 0 offset source.toList
  rw [Nat.zero_add] at rest
  rw [countUpTo_eq (listed ▸ lineStarts_sorted 0 source.toList), listed, List.countP_cons, rest]
  exact Nat.max_eq_right (Nat.le_add_left ..)

theorem lastStart_ofSource (source : Source) (offset : Nat) :
    (ofSource source).starts[lineFeeds (source.toList.take offset)]? =
      some (lastLine (source.toList.take offset)) := by
  rw [← Array.getElem?_toList, starts_ofSource, getElem?_lineStarts, Nat.zero_add]

/-- The line and the column of an offset, from the bytes before it. -/
theorem position_ofSource (source : Source) (offset : Nat) :
    (ofSource source).position offset =
      ⟨saturate (lineFeeds (source.toList.take offset) + 1),
        saturate (offset - lastLine (source.toList.take offset) + 1)⟩ := by
  simp only [position, countUpTo_ofSource, Nat.add_sub_cancel, Array.getD_eq_getD_getElem?,
    lastStart_ofSource, Option.getD_some]

/-- A text without a line feed ends on the line that it begins on. -/
theorem line_of_prefix {source : Source} {front : Bytes} (begins : front <+: source.toList)
    (unbroken : 0x0A ∉ front) : (ofSource source).line front.length = 1 := by
  have text : source.toList.take front.length = front := (List.prefix_iff_eq_take.mp begins).symm
  have fed : lineFeeds front = 0 := List.count_eq_zero_of_not_mem unbroken
  rw [line, position_ofSource, text, fed]
  rfl

end LineIndex

/-- Where a place in a text lies when other bytes are put in front of the text. -/
def Position.behind (before : Bytes) (p : Position) : Position :=
  ⟨saturate (lineFeeds before + p.line),
    if p.line = 1 then saturate (before.length - lastLine before + p.column) else p.column⟩

theorem LineIndex.position_behind {source source' : Source} {before : Bytes}
    (longer : source'.toList = before ++ source.toList) (offset : Nat) :
    (ofSource source').position (before.length + offset) =
      ((ofSource source).position offset).behind before := by
  have ahead : source'.toList.take (before.length + offset) =
      before ++ source.toList.take offset := by
    rw [longer, List.take_length_add_append]
  have shorter := lastLine_le before
  simp only [position_ofSource, Position.behind, ahead, lineFeeds_append, lastLine_append]
  generalize source.toList.take offset = text
  congr 1
  · simp only [saturate]
    omega
  · by_cases fed : 0x0A ∈ text
    · have several : 0 < lineFeeds text := List.count_pos_iff.mpr fed
      have later : saturate (lineFeeds text + 1) ≠ 1 := by
        simp only [saturate]
        omega
      rw [if_pos fed, if_neg later, Nat.add_sub_add_left]
    · have first : saturate (lineFeeds text + 1) = 1 := by
        rw [lineFeeds, List.count_eq_zero_of_not_mem fed]
        rfl
      have start : lastLine text = 0 := by
        cases text with
        | nil => rfl
        | cons b rest => exact if_neg (by simpa [eq_comm] using fed)
      rw [if_neg fed, if_pos first, start]
      simp only [saturate]
      omega

end Backtrack
