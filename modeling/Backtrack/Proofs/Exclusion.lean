import Backtrack.Proofs.CallStream
import Backtrack.Proofs.FileLines
import Backtrack.Proofs.Legible

/-! Runs of bytes that stop where another rule matches. Such a run holds bytes of one class, at none
of which the other rule matches, and it ends at a byte outside the class or where the other rule
does. So what is cut out of the source holds no mark that the other rule looks for. -/
namespace Backtrack

variable {α : Type} {input : Bytes} {a b : Rule α} {s : CharSet} {pos next i : Nat}

section Runs

variable {P : Nat → Prop}

/-- What holds of every place where a byte is taken holds all along a repetition. -/
theorem Recognizes.many_each (each : ∀ i k, Recognizes input a i (some k) → k = i + 1 ∧ P i)
    (h : Recognizes input (.many a) pos (some next)) :
    pos ≤ next ∧ ∀ i, pos ≤ i → i < next → P i := by
  generalize repeated : Rule.many a = rule at h
  generalize reached : some next = m at h
  induction h with
  | manyEnd =>
    cases reached
    exact ⟨Nat.le_refl _, fun i first last => absurd last (Nat.not_lt_of_le first)⟩
  | manyNext once _ _ _ ih =>
    cases repeated
    obtain ⟨rfl, here⟩ := each _ _ once
    obtain ⟨onward, behind⟩ := ih rfl reached
    refine ⟨Nat.le_of_succ_le onward, fun i first last => ?_⟩
    rcases Nat.eq_or_lt_of_le first with rfl | later
    · exact here
    · exact behind i later last
  | leaf found =>
    subst repeated
    simp [Rule.leaf?] at found
  | _ => cases repeated

theorem Recognizes.many1_each (each : ∀ i k, Recognizes input a i (some k) → k = i + 1 ∧ P i)
    (h : Recognizes input (.many1 a) pos (some next)) :
    pos < next ∧ ∀ i, pos ≤ i → i < next → P i := by
  generalize reached : some next = m at h
  cases h with
  | leaf found => simp [Rule.leaf?] at found
  | many1End once last =>
    subst reached
    obtain ⟨rfl, -⟩ := each _ _ once
    simp at last
  | many1Next once _ rest =>
    subst reached
    obtain ⟨rfl, here⟩ := each _ _ once
    obtain ⟨onward, behind⟩ := rest.many_each each
    refine ⟨onward, fun i first last => ?_⟩
    rcases Nat.eq_or_lt_of_le first with rfl | later
    · exact here
    · exact behind i later last

end Runs

/-- A byte of the class stands there, and the other rule does not match. -/
def Clear (input : Bytes) (s : CharSet) (b : Rule α) (i : Nat) : Prop :=
  (∃ c, input[i]? = some c ∧ s.contains c = true) ∧ Recognizes input b i none

/-- Whatever it leaves out, a class matches one byte of its own. -/
theorem Recognizes.byte_of_difference
    (h : Recognizes input (.difference (.set s) b) pos (some next)) :
    next = pos + 1 ∧ ∃ c, input[pos]? = some c ∧ s.contains c = true := by
  obtain ⟨-, failed⟩ | ⟨after, other, keep, -, kept⟩ := difference_iff.mp h
  · cases failed
  · obtain ⟨c, here, member, rfl⟩ := keep.byte_of_set
    split at kept <;> cases kept
    exact ⟨rfl, c, here, member⟩

theorem Recognizes.clear (eats : b.eats = true)
    (h : Recognizes input (.difference (.set s) b) pos (some next)) :
    next = pos + 1 ∧ Clear input s b pos := by
  obtain ⟨-, failed⟩ | ⟨after, other, keep, excluded, kept⟩ := difference_iff.mp h
  · cases failed
  obtain ⟨c, here, member, rfl⟩ := keep.byte_of_set
  have inside : pos ≤ input.length := Nat.le_of_lt (List.getElem?_eq_some_iff.mp here).1
  cases other with
  | none =>
    cases kept
    exact ⟨rfl, ⟨c, here, member⟩, excluded⟩
  | some far =>
    have further := excluded.eats inside eats
    rw [Option.any_some, if_pos (by simpa [Nat.succ_le_iff] using further)] at kept
    cases kept

/-- Where a run ends, the next byte is of another class, or the other rule matches. -/
theorem Recognizes.stops (inside : pos ≤ input.length)
    (h : Recognizes input (.many (.difference (.set s) b)) pos (some next)) :
    (∀ c, input[next]? = some c → ¬ s.contains c = true) ∨
      ∃ far, Recognizes input b next (some far) := by
  obtain ⟨m, once, last⟩ := h.many_stops
  have within := (h.advances inside).2
  obtain ⟨keep, -⟩ | ⟨after, other, keep, excluded, kept⟩ := difference_iff.mp once
  · exact .inl fun c here => keep.no_byte_of_set here
  · obtain ⟨c, here, member, rfl⟩ := keep.byte_of_set
    cases other with
    | none => rcases last with rfl | rfl <;> simp at kept
    | some far => exact .inr ⟨far, excluded⟩

/-- A place at which no literal of a choice stands. -/
theorem Recognizes.no_literal {x y : Bytes}
    (h : Recognizes input (.choice (.literal x) (.literal y) : Rule α) pos none) :
    ¬ x <+: input.drop pos ∧ ¬ y <+: input.drop pos :=
  (choice_none_iff.mp h).imp literal_none_iff.mp literal_none_iff.mp

section Spans

variable {source : Source} {span : Span} {mark : Bytes}

theorem Span.bytes_eq (span : Span) :
    span.bytes = (span.source.toList.drop span.start).take span.size := by
  simp [bytes, size, List.extract_eq_take_drop]

/-- The bytes of a span stand in the source. -/
theorem Span.byte_of_mem {b : UInt8} (member : b ∈ span.bytes) :
    ∃ i, span.start ≤ i ∧ i < span.stop ∧ span.source.toList[i]? = some b := by
  obtain ⟨k, here⟩ := List.mem_iff_getElem?.mp member
  have short := (List.getElem?_eq_some_iff.mp here).1
  rw [length_bytes, size] at short
  rw [bytes_eq, List.getElem?_take_of_lt (by rw [size]; exact short), List.getElem?_drop] at here
  exact ⟨span.start + k, Nat.le_add_right .., by omega, here⟩

/-- The first byte of a span stands where the span begins. -/
theorem Span.byte_of_head {b : UInt8} (first : b ∈ span.bytes.head?) :
    span.start < span.stop ∧ span.source.toList[span.start]? = some b := by
  have filled : span.bytes ≠ [] := by
    intro empty
    simp [empty] at first
  have wide : 0 < span.size := span.length_bytes ▸ List.length_pos_iff.mpr filled
  rw [List.head?_eq_getElem?, bytes_eq, List.getElem?_take_of_lt wide, List.getElem?_drop] at first
  exact ⟨Nat.lt_of_sub_pos wide, first⟩

/-- What begins a span stands in the source. -/
theorem Span.stands_of_prefix (here : mark <+: span.bytes) :
    mark <+: span.source.toList.drop span.start := by
  rw [bytes_eq] at here
  exact here.trans (List.take_prefix ..)

/-- What a span holds stands in the source, at a place inside the span. -/
theorem Span.stands_of_infix (filled : mark ≠ []) (here : mark <:+: span.bytes) :
    ∃ i, span.start ≤ i ∧ i < span.stop ∧ mark <+: span.source.toList.drop i := by
  obtain ⟨x, y, whole⟩ := here
  have length := congrArg List.length whole
  have solid := List.length_pos_iff.mpr filled
  rw [bytes_eq, List.length_take, List.length_append, List.length_append] at length
  have width : span.size = span.stop - span.start := rfl
  refine ⟨span.start + x.length, by omega, by omega, ?_⟩
  have behind : mark <+: span.bytes.drop x.length := by
    rw [← whole, List.append_assoc, List.drop_left]
    exact List.prefix_append ..
  rw [bytes_eq, List.drop_take, List.drop_drop] at behind
  exact behind.trans (List.take_prefix ..)

end Spans
end Backtrack
