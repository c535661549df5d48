import Backtrack.Proofs.LineTable

/-! Lines and columns by counting. The line of an offset is one more than the line feeds before it,
and its column is how far it lies behind the last of them. One byte on, either the line grows or the
column does, so places grow with their offsets. The lookup in the table gives what counting gives,
and it never reads beside the table nor takes more from an offset than it holds. -/
namespace Backtrack

/-- The last line feed before an offset. -/
def lastFeed? (bytes : Bytes) (offset : Nat) : Option Nat :=
  (List.range offset).reverse.find? fun i => bytes[i]? = some 0x0A

namespace Position

def counted (bytes : Bytes) (offset : Nat) : Position where
  line := 1 + (bytes.take offset).count 0x0A
  column := match lastFeed? bytes offset with
    | some feed => offset - feed
    | none => offset + 1

/-- Both numbers have 32 bits. -/
def Fits (p : Position) : Prop := p.line ≤ 0xFFFFFFFF ∧ p.column ≤ 0xFFFFFFFF

def saturated (p : Position) : Position := ⟨saturate p.line, saturate p.column⟩

/-- The line decides, and on one line the column does. -/
def Before (p q : Position) : Prop := p.line < q.line ∨ p.line = q.line ∧ p.column < q.column

variable {p q r : Position}

theorem Before.trans (first : p.Before q) (second : q.Before r) : p.Before r := by
  unfold Before at *
  omega

theorem Fits.saturated (fits : p.Fits) : p.saturated = p := by
  obtain ⟨line, column⟩ := p
  obtain ⟨short, narrow⟩ := fits
  simp only [Position.saturated, saturate] at *
  congr 1 <;> omega

/-- A place before one that fits may have too large a column, but on an earlier line. -/
theorem Before.saturated (before : p.Before q) (fits : q.Fits) : p.saturated.Before q := by
  obtain ⟨short, narrow⟩ := fits
  simp only [Before, Position.saturated, saturate] at *
  omega

end Position

section Counting

variable (bytes : Bytes) (offset : Nat)

theorem lastFeed?_succ :
    lastFeed? bytes (offset + 1) =
      if bytes[offset]? = some 0x0A then some offset else lastFeed? bytes offset := by
  rw [lastFeed?, List.range_succ, List.reverse_concat, List.find?_cons]
  split <;> simp_all [lastFeed?]

theorem lastFeed?_lt {feed : Nat} (last : lastFeed? bytes offset = some feed) : feed < offset := by
  have member := List.mem_of_find?_eq_some last
  simpa using member

theorem lineFeeds_take_succ :
    lineFeeds (bytes.take (offset + 1)) =
      lineFeeds (bytes.take offset) + if bytes[offset]? = some 0x0A then 1 else 0 := by
  rw [List.take_add_one, lineFeeds_append]
  congr 1
  cases bytes[offset]? with
  | none => rfl
  | some b => simp [lineFeeds, List.count_singleton]

/-- The last line starts right behind the last line feed. -/
theorem lastLine_take :
    lastLine (bytes.take offset) = (lastFeed? bytes offset).elim 0 (· + 1) := by
  induction offset with
  | zero => rfl
  | succ offset ih =>
    rw [List.take_add_one, lastLine_append, lastFeed?_succ, ih]
    cases here : bytes[offset]? with
    | none => simp
    | some b =>
      have inside : offset < bytes.length := (List.getElem?_eq_some_iff.mp here).1
      by_cases fed : b = 0x0A
      · subst fed
        simp [lastLine, Nat.min_eq_left (Nat.le_of_lt inside)]
      · have other : (0x0A : UInt8) ≠ b := Ne.symm fed
        simp [fed, other]

theorem counted_eq :
    Position.counted bytes offset =
      ⟨lineFeeds (bytes.take offset) + 1, offset - lastLine (bytes.take offset) + 1⟩ := by
  rw [Position.counted, lastLine_take, Nat.add_comm 1]
  congr 1
  cases last : lastFeed? bytes offset with
  | none => rfl
  | some feed =>
    have before := lastFeed?_lt bytes offset last
    simp only [Option.elim_some]
    omega

theorem counted_step :
    (Position.counted bytes offset).Before (Position.counted bytes (offset + 1)) := by
  have line := lineFeeds_take_succ bytes offset
  simp only [Position.Before, Position.counted, lastFeed?_succ]
  by_cases fed : bytes[offset]? = some 0x0A
  · left
    rw [if_pos fed] at line
    simp only [lineFeeds] at line
    omega
  · right
    rw [if_neg fed] at line ⊢
    refine ⟨congrArg (1 + ·) line.symm, ?_⟩
    cases last : lastFeed? bytes offset with
    | none => exact Nat.lt_succ_self _
    | some feed =>
      have before := lastFeed?_lt bytes offset last
      show offset - feed < offset + 1 - feed
      omega

theorem counted_before {earlier : Nat} (lt : earlier < offset) :
    (Position.counted bytes earlier).Before (Position.counted bytes offset) := by
  induction lt with
  | refl => exact counted_step bytes earlier
  | step _ ih => exact ih.trans (counted_step bytes _)

end Counting

namespace LineIndex

/-- The bisection of `countUpTo` where each read may fail. -/
def countUpTo? (starts : Array Nat) (offset low high : Nat) : Option Nat :=
  if low < high then
    starts[(low + high) / 2]?.bind fun start =>
      if start ≤ offset then countUpTo? starts offset ((low + high) / 2 + 1) high
      else countUpTo? starts offset low ((low + high) / 2)
  else some low
termination_by high - low

/-- The lookup of `position` where each read, and what is taken from the offset, may fail. A line is
at least 1. -/
def position? (index : LineIndex) (offset : Nat) : Option Position := do
  let line := max 1 (← countUpTo? index.starts offset 0 index.starts.size)
  let start ← index.starts[line - 1]?
  if start ≤ offset then some ⟨saturate line, saturate (offset - start + 1)⟩ else none

theorem countUpTo?_eq {starts : Array Nat} (offset : Nat) {low high : Nat}
    (inside : high ≤ starts.size) :
    countUpTo? starts offset low high = some (countUpTo starts offset low high) := by
  have read {i : Nat} (within : i < starts.size) :
      starts[i]? = some (starts.getD i (offset + 1)) := by
    rw [Array.getD_eq_getD_getElem?, Array.getElem?_eq_getElem within, Option.getD_some]
  -- The middle lies below `high`, and `high` never passes the end of the table.
  fun_induction countUpTo starts offset low high with
  | case1 low high apart mid early ih =>
    have within : mid < starts.size := by omega
    rw [countUpTo?, if_pos apart, read within, Option.bind_some, if_pos early]
    exact ih inside
  | case2 low high apart mid late ih =>
    have within : mid < starts.size := by omega
    rw [countUpTo?, if_pos apart, read within, Option.bind_some, if_neg late]
    exact ih (Nat.le_of_lt within)
  | case3 low high together => rw [countUpTo?, if_neg together]

theorem position?_eq (source : Source) (offset : Nat) :
    (ofSource source).position? offset = some ((ofSource source).position offset) := by
  have reached : lastLine (source.toList.take offset) ≤ offset :=
    Nat.le_trans (lastLine_le _) (List.length_take_le ..)
  simp only [position?, countUpTo?_eq offset (Nat.le_refl _), Option.bind_eq_bind, Option.bind_some,
    countUpTo_ofSource, Nat.add_sub_cancel, lastStart_ofSource, if_pos reached,
    position_ofSource]

theorem position_saturated (source : Source) (offset : Nat) :
    (ofSource source).position offset = (Position.counted source.toList offset).saturated := by
  rw [position_ofSource, counted_eq, Position.saturated]

end LineIndex

/-- The place of an offset is the counted one, for offsets past the end too. -/
theorem position_counts (source : Source) (offset : Nat) :
    let index := LineIndex.ofSource source
    let counted := Position.counted source.toList offset
    index.position? offset = some (index.position offset) ∧
    (counted.Fits → index.position offset = counted ∧
      ∀ earlier < offset, (index.position earlier).Before (index.position offset)) := by
  intro index counted
  refine ⟨LineIndex.position?_eq source offset, fun fits => ?_⟩
  have here : index.position offset = counted := by
    rw [LineIndex.position_saturated, fits.saturated]
  refine ⟨here, fun earlier lt => ?_⟩
  rw [here, LineIndex.position_saturated]
  exact (counted_before source.toList offset lt).saturated fits

/-- Two line feeds in a row, and an offset past the end. -/
theorem position_counts_past_end :
    let source : Source := (Text.utf8 "ab\n\nc").toArray
    let index := LineIndex.ofSource source
    (Position.counted source.toList 9).Fits ∧ index.position? 9 = some ⟨3, 6⟩ ∧
    index.position 9 = ⟨3, 6⟩ ∧ ∀ earlier < 9, (index.position earlier).Before ⟨3, 6⟩ := by
  intro source index
  have place : Position.counted source.toList 9 = ⟨3, 6⟩ := by decide +kernel
  have fits : (Position.counted source.toList 9).Fits := place ▸ ⟨by decide, by decide⟩
  obtain ⟨checked, told⟩ := position_counts source 9
  obtain ⟨here, before⟩ := told fits
  rw [place] at here
  rw [here] at checked before
  exact ⟨fits, checked, here, before⟩

end Backtrack
