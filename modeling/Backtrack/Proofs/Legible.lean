import Mathlib.Data.Fintype.Basic
import Backtrack.Proofs.Inversion

/-! Readable text: printable ASCII, tabs and line breaks. A rule is legible when it matches nothing
else, and rules put together from legible ones are legible. -/
namespace Backtrack

variable {α : Type}

namespace CharSet

theorem contains_printable (b : UInt8) :
    printable.contains b = true ↔ 0x20 ≤ b ∧ b ≤ 0x7E :=
  contains_range b 0x20 0x7E

theorem contains_blank (b : UInt8) : blank.contains b = true ↔ b = 0x20 ∨ b = 0x09 :=
  (contains_ofBytes b [0x20, 0x09]).trans (by simp)

end CharSet

/-- Every byte is printable ASCII, a tab, a line feed, or a carriage return right before a line
feed. -/
def Readable (bytes : Bytes) : Prop :=
  ∀ (i : Nat) (b : UInt8), bytes[i]? = some b → (0x20 ≤ b ∧ b ≤ 0x7E) ∨ b = 0x09 ∨ b = 0x0A ∨
    b = 0x0D ∧ bytes[i + 1]? = some 0x0A

namespace Readable

variable {x y : Bytes}

theorem nil : Readable [] := by
  intro i b at_i
  simp at at_i

theorem append (first : Readable x) (second : Readable y) : Readable (x ++ y) := by
  intro i b at_i
  by_cases inside : i < x.length
  · rw [List.getElem?_append_left inside] at at_i
    refine (first i b at_i).imp_right (Or.imp_right (Or.imp_right fun ⟨cr, lf⟩ => ⟨cr, ?_⟩))
    have further : i + 1 < x.length := (List.getElem?_eq_some_iff.mp lf).1
    rwa [List.getElem?_append_left further]
  · have behind : x.length ≤ i := Nat.le_of_not_lt inside
    rw [List.getElem?_append_right behind] at at_i
    refine (second _ b at_i).imp_right (Or.imp_right (Or.imp_right fun ⟨cr, lf⟩ => ⟨cr, ?_⟩))
    rw [List.getElem?_append_right (Nat.le_succ_of_le behind), Nat.succ_sub behind]
    exact lf

theorem drop (readable : Readable x) (k : Nat) : Readable (x.drop k) := by
  intro i b at_i
  rw [List.getElem?_drop] at at_i
  rw [List.getElem?_drop, ← Nat.add_assoc]
  exact readable _ b at_i

theorem of_forall (solid : ∀ b ∈ x, (0x20 ≤ b ∧ b ≤ 0x7E) ∨ b = 0x09 ∨ b = 0x0A) : Readable x :=
  fun _ b at_i => (solid b (List.mem_of_getElem? at_i)).imp_right (Or.imp_right Or.inl)

theorem line_break : Readable [0x0D, 0x0A] := by
  rintro (_ | _ | i) b at_i <;> simp at at_i <;> subst at_i
  · exact .inr (.inr (.inr ⟨rfl, rfl⟩))
  · exact .inr (.inr (.inl rfl))

end Readable

/-- The bytes from one position to another. -/
def stretch (input : Bytes) (pos next : Nat) : Bytes := (input.take next).drop pos

theorem stretch_self (input : Bytes) (pos : Nat) : stretch input pos pos = [] := by
  simp [stretch]

theorem stretch_append {input : Bytes} {pos mid next : Nat} (first : pos ≤ mid)
    (second : mid ≤ next) :
    stretch input pos mid ++ stretch input mid next = stretch input pos next := by
  obtain ⟨k, rfl⟩ := Nat.exists_eq_add_of_le first
  obtain ⟨l, rfl⟩ := Nat.exists_eq_add_of_le second
  have left : pos + k + l - (pos + k) = l := by omega
  have right : pos + k + l - pos = k + l := by omega
  simp only [stretch, List.drop_take, Nat.add_sub_cancel_left, left, right]
  rw [← List.drop_drop, ← List.take_add]

theorem stretch_succ {input : Bytes} {pos : Nat} {b : UInt8} (here : input[pos]? = some b) :
    stretch input pos (pos + 1) = [b] := by
  obtain ⟨inside, rfl⟩ := List.getElem?_eq_some_iff.mp here
  rw [stretch, List.drop_take, Nat.add_sub_cancel_left, List.drop_eq_getElem_cons inside,
    List.take_succ_cons, List.take_zero]

theorem Recognizes.byte_of_set {input : Bytes} {s : CharSet} {pos next : Nat}
    (h : Recognizes input (.set s : Rule α) pos (some next)) :
    ∃ b, input[pos]? = some b ∧ s.contains b = true ∧ next = pos + 1 := by
  cases h with
  | leaf found =>
    simp only [Rule.leaf?, Option.some.injEq] at found
    split at found
    next member =>
      cases found
      obtain ⟨b, here, member⟩ := (Option.any_eq_true _ _).mp member
      exact ⟨b, here, member, rfl⟩
    next => cases found

theorem Recognizes.no_byte_of_set {input : Bytes} {s : CharSet} {pos : Nat}
    (h : Recognizes input (.set s : Rule α) pos none) {b : UInt8} (here : input[pos]? = some b) :
    ¬ s.contains b = true := by
  cases h with
  | leaf found => simpa [Rule.leaf?, here] using found

theorem Recognizes.not_optional_none {input : Bytes} {rule : Rule α} {pos : Nat} :
    ¬ Recognizes input (.optional rule) pos none := by
  intro h
  obtain ⟨_, -, matched⟩ := Recognizes.optional_iff.mp h
  cases matched

theorem Recognizes.not_many_none {input : Bytes} {rule : Rule α} {pos : Nat} :
    ¬ Recognizes input (.many rule) pos none := by
  intro h
  generalize repeated : Rule.many rule = whole at h
  generalize failed : none = m at h
  induction h with
  | manyEnd => cases failed
  | manyNext _ _ _ _ ih => exact ih repeated failed
  | leaf found =>
    subst repeated
    simp [Rule.leaf?] at found
  | _ => cases repeated

/-- Where a rule cannot be repeated once, it does not match. -/
theorem Recognizes.none_of_many1 {input : Bytes} {rule : Rule α} {pos : Nat}
    (h : Recognizes input (.many1 rule) pos none) : Recognizes input rule pos none := by
  cases h with
  | leaf found => simp [Rule.leaf?] at found
  | many1End once => exact once
  | many1Next _ _ rest => exact rest.not_many_none.elim

/-- The rule matches readable bytes only. -/
def Rule.Legible (rule : Rule α) : Prop :=
  ∀ (input : Bytes) (pos next : Nat), pos ≤ input.length →
    Recognizes input rule pos (some next) → Readable (stretch input pos next)

namespace Rule.Legible

variable {a b : Rule α}

theorem seq (first : a.Legible) (second : b.Legible) : (a ++ b).Legible := by
  intro input pos next inside matched
  obtain ⟨mid, left, right⟩ := Recognizes.seq_some_iff.mp matched
  have onward := left.advances inside
  have further := right.advances onward.2
  rw [← stretch_append onward.1 further.1]
  exact (first input pos mid inside left).append (second input mid next onward.2 right)

theorem choice (left : a.Legible) (right : b.Legible) : (a ||| b).Legible := by
  intro input pos next inside matched
  rcases Recognizes.choice_iff.mp matched with ⟨-, here⟩ | ⟨-, here⟩
  · exact left input pos next inside here
  · exact right input pos next inside here

theorem difference (keep : a.Legible) : (a \ b).Legible := by
  intro input pos next inside matched
  obtain ⟨-, failed⟩ | ⟨_, _, here, -, reached⟩ := Recognizes.difference_iff.mp matched
  · cases failed
  · split at reached <;> cases reached
    exact keep input pos next inside here

theorem optional (part : a.Legible) : (Rule.optional a).Legible := by
  intro input pos next inside matched
  obtain ⟨_ | next, here, reached⟩ := Recognizes.optional_iff.mp matched <;> cases reached
  · simpa [stretch_self] using Readable.nil
  · exact part input pos next inside here

theorem many (part : a.Legible) : (Rule.many a).Legible := by
  intro input pos next inside matched
  generalize repeated : Rule.many a = rule at matched
  generalize reached : some next = m at matched
  induction matched with
  | manyEnd =>
    cases reached
    simpa [stretch_self] using Readable.nil
  | manyNext once _ rest _ ih =>
    cases repeated
    subst reached
    have onward := once.advances inside
    have further := rest.advances onward.2
    rw [← stretch_append onward.1 further.1]
    exact (part input _ _ inside once).append (ih onward.2 rfl rfl)
  | leaf found =>
    subst repeated
    simp [leaf?] at found
  | _ => cases repeated

theorem many1 (part : a.Legible) : (Rule.many1 a).Legible := by
  intro input pos next inside matched
  cases matched with
  | leaf found => simp [leaf?] at found
  | many1End once => exact part input pos next inside once
  | many1Next once _ rest =>
    have onward := once.advances inside
    have further := rest.advances onward.2
    rw [← stretch_append onward.1 further.1]
    exact (part input pos _ inside once).append (part.many input _ next onward.2 rest)

theorem action (part : a.Legible) (act : α) : (a.action act).Legible := by
  intro input pos next inside matched
  exact part input pos next inside (Recognizes.action_iff.mp matched)

theorem effect (part : a.Legible) (e : Effect) : (a.effect e).Legible := by
  intro input pos next inside matched
  exact part input pos next inside (Recognizes.effect_iff.mp matched)

theorem set {s : CharSet}
    (solid : ∀ b, s.contains b = true → (0x20 ≤ b ∧ b ≤ 0x7E) ∨ b = 0x09 ∨ b = 0x0A) :
    (Rule.set s : Rule α).Legible := by
  intro input pos next _ matched
  obtain ⟨b, here, member, rfl⟩ := matched.byte_of_set
  rw [stretch_succ here]
  refine .of_forall fun c last => ?_
  obtain rfl := List.mem_singleton.mp last
  exact solid c member

theorem literal {bytes : Bytes} (printable : ∀ b ∈ bytes, 0x20 ≤ b ∧ b ≤ 0x7E) :
    (Rule.literal bytes : Rule α).Legible := by
  intro input pos next inside matched
  have found := Recognizes.literal_iff.mp matched
  split at found <;> cases found
  next here =>
    obtain ⟨rest, same⟩ := here
    rw [stretch, List.drop_take, Nat.add_sub_cancel_left, ← same, List.take_left]
    exact .of_forall fun b member => .inl (printable b member)

theorem endOfInput : (Rule.endOfInput : Rule α).Legible := by
  intro input pos next inside matched
  cases matched with
  | leaf found =>
    simp only [leaf?, Option.some.injEq] at found
    split at found <;> cases found
    simpa [stretch_self] using Readable.nil

end Rule.Legible

end Backtrack
