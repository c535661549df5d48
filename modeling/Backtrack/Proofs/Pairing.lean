import Mathlib.Data.List.Forall2
import Backtrack.Diagnostics

/-! Two stacks of pending messages side by side. From some height on `E` relates the entries of the
one to those of the other; what lies below is fixed on either side, and no effect that keeps above
it touches it. `base` and `base'` are where the two matches began, and the places of what has been
abandoned are told from there. -/
namespace Backtrack

variable {E : Entry → Entry → Prop} {base base' : Nat} {low low' : List Entry}

/-- Abandoned at one place, at one height. -/
structure Abandoned.Paired (E : Entry → Entry → Prop) (base base' : Nat) (a a' : Abandoned) :
    Prop where
  entry : E a.entry a'.entry
  height : a.height = a'.height
  start : a.start + base' = a'.start + base
  claimed : a.claimed = a'.claimed

/-- Above `low` and `low'` the stacks hold related entries. -/
structure Pending.Paired (E : Entry → Entry → Prop) (base base' : Nat) (low low' : List Entry)
    (p p' : Pending) : Prop where
  floor : low.length = low'.length
  stack : ∃ high high', p.stack.toList = low ++ high ∧ p'.stack.toList = low' ++ high' ∧
    List.Forall₂ E high high'
  abandoned : List.Forall₂ (Abandoned.Paired E base base') p.abandoned.toList p'.abandoned.toList

theorem forall₂_set {ι κ : Type} {T : ι → κ → Prop} {l : List ι} {l' : List κ}
    (same : List.Forall₂ T l l') {i : ι} {k : κ} (here : T i k) (n : Nat) :
    List.Forall₂ T (l.set n i) (l'.set n k) := by
  induction same generalizing n with
  | nil => exact .nil
  | cons first rest ih =>
    cases n with
    | zero => exact .cons here rest
    | succ n => exact .cons first (ih n)

namespace Pending.Paired

variable {p p' q q' : Pending}

theorem empty : Paired E base base' [] [] {} {} := ⟨rfl, ⟨[], [], rfl, rfl, .nil⟩, .nil⟩

theorem depth (h : p.Paired E base base' low low' p') : p.depth = p'.depth := by
  obtain ⟨floor, ⟨high, high', whole, whole', same⟩, -⟩ := h
  have length := congrArg List.length whole
  have length' := congrArg List.length whole'
  have above := same.length_eq
  simp only [Array.length_toList, List.length_append] at length length'
  simp only [Pending.depth]
  omega

theorem floor_le (h : p.Paired E base base' low low' p') : low.length ≤ p.depth := by
  obtain ⟨-, ⟨high, high', whole, -⟩, -⟩ := h
  have length := congrArg List.length whole
  simp only [Array.length_toList, List.length_append] at length
  simp only [Pending.depth]
  omega

theorem push (h : p.Paired E base base' low low' p') {e e' : Entry} (entry : E e e') :
    (p.push e).Paired E base base' low low' (p'.push e') := by
  obtain ⟨floor, ⟨high, high', whole, whole', same⟩, abandoned⟩ := h
  refine ⟨floor, ⟨high ++ [e], high' ++ [e'], ?_, ?_, ?_⟩, abandoned⟩
  · simp [Pending.push, whole]
  · simp [Pending.push, whole']
  · exact List.rel_append same (.cons entry .nil)

/-- The entries on top, above the floor, and what lies under them. -/
theorem top (h : p.Paired E base base' low low' p') (above : low.length < p.depth) :
    ∃ e e', E e e' ∧ p.stack.back? = some e ∧ p'.stack.back? = some e' ∧
      p.pop.Paired E base base' low low' p'.pop := by
  obtain ⟨floor, ⟨high, high', whole, whole', same⟩, abandoned⟩ := h
  have length := congrArg List.length whole
  simp only [Array.length_toList, List.length_append] at length
  simp only [Pending.depth] at above
  obtain rfl | ⟨rest, e, rfl⟩ := List.eq_nil_or_concat' high
  · simp only [List.length_nil] at length
    omega
  obtain rfl | ⟨rest', e', rfl⟩ := List.eq_nil_or_concat' high'
  · exact absurd same.length_eq (by simp)
  have reversed := List.forall₂_reverse_iff.mpr same
  simp only [List.reverse_append, List.reverse_singleton, List.singleton_append,
    List.forall₂_cons, List.forall₂_reverse_iff] at reversed
  obtain ⟨entry, below⟩ := reversed
  refine ⟨e, e', entry, ?_, ?_, floor, ⟨rest, rest', ?_, ?_, below⟩, abandoned⟩
  · simp [← Array.getLast?_toList, whole]
  · simp [← Array.getLast?_toList, whole']
  · simp [Pending.pop, whole]
  · simp [Pending.pop, whole']

theorem pop (h : p.Paired E base base' low low' p') (above : low.length < p.depth) :
    p.pop.Paired E base base' low low' p'.pop := by
  obtain ⟨_, _, -, -, -, popped⟩ := h.top above
  exact popped

/-- One more entry on either side, whatever the two say: what is pushed from here on keeps above
them. -/
theorem cover (h : q.Paired E base base' low low' q') (e e' : Entry) :
    (q.push e).Paired E base base' (q.push e).stack.toList (q'.push e').stack.toList
      (q'.push e') := by
  have size : q.stack.size = q'.stack.size := h.depth
  exact ⟨by simp [Pending.push, size], ⟨[], [], by simp, by simp, .nil⟩, h.abandoned⟩

/-- Where nothing stands above them, these entries are taken down: below them stands what stood
there before. -/
theorem uncover (below : q.Paired E base base' low low' q') {e e' : Entry}
    (h : p.Paired E base base' (q.push e).stack.toList (q'.push e').stack.toList p')
    (level : p.depth = q.depth + 1) : p.pop.Paired E base base' low low' p'.pop := by
  obtain ⟨floor, ⟨high, high', whole, whole', same⟩, -⟩ := below
  obtain ⟨-, ⟨upper, upper', above, above', more⟩, abandoned⟩ := h
  have length := congrArg List.length above
  simp only [Pending.depth] at level
  simp only [Pending.push, Array.length_toList, List.length_append, Array.size_push,
    level] at length
  obtain rfl : upper = [] := List.eq_nil_of_length_eq_zero (by omega)
  cases more
  refine ⟨floor, ⟨high, high', ?_, ?_, same⟩, abandoned⟩
  · simp [Pending.pop, above, Pending.push, whole]
  · simp [Pending.pop, above', Pending.push, whole']

/-- Entries that a failure has abandoned, numbered by their heights. -/
theorem failed {l l' : List Entry} (same : List.Forall₂ E l l') (depth k : Nat) :
    List.Forall₂ (Abandoned.Paired E base base')
      ((l.zipIdx depth).map fun e => ⟨e.1, e.2, base + k, false⟩)
      ((l'.zipIdx depth).map fun e => ⟨e.1, e.2, base' + k, false⟩) := by
  induction same generalizing depth with
  | nil => exact .nil
  | cons first _ ih => exact .cons ⟨first, rfl, by dsimp only; omega, rfl⟩ (ih (depth + 1))

theorem abandonFrom (h : p.Paired E base base' low low' p') {depth : Nat}
    (above : low.length ≤ depth) (k : Nat) :
    (p.abandonFrom depth (base + k)).Paired E base base' low low'
      (p'.abandonFrom depth (base' + k)) := by
  have size : p.stack.size = p'.stack.size := h.depth
  unfold Pending.abandonFrom
  rw [size]
  split
  · exact h
  obtain ⟨floor, ⟨high, high', whole, whole', same⟩, abandoned⟩ := h
  have above' : low'.length ≤ depth := floor ▸ above
  have length := congrArg List.length whole
  have length' := congrArg List.length whole'
  simp only [Array.length_toList, List.length_append] at length length'
  refine ⟨floor, ⟨high.take (depth - low.length), high'.take (depth - low.length), ?_, ?_,
    List.forall₂_take _ same⟩, ?_⟩
  · simp only [Array.shrink_eq_take, Array.toList_extract, List.extract_eq_take_drop, Nat.sub_zero,
      List.drop_zero, whole, List.take_append, List.take_of_length_le above]
  · simp only [Array.shrink_eq_take, Array.toList_extract, List.extract_eq_take_drop, Nat.sub_zero,
      List.drop_zero, whole', List.take_append, List.take_of_length_le above', floor]
  · simp only [Array.toList_appendList, Array.toList_extract, List.extract_eq_take_drop, whole,
      whole', List.drop_append, List.drop_eq_nil_of_le above, List.drop_eq_nil_of_le above',
      List.nil_append, ← floor]
    refine List.rel_append abandoned (List.forall₂_reverse_iff.mpr (failed ?_ depth k))
    exact List.forall₂_take _ (List.forall₂_drop _ same)

theorem settle (h : p.Paired E base base' low low' p') (count : Nat) :
    Paired E base base' low low' { p with abandoned := p.abandoned.shrink count }
      { p' with abandoned := p'.abandoned.shrink count } := by
  refine ⟨h.floor, h.stack, ?_⟩
  simp only [Array.shrink_eq_take, Array.toList_extract, List.extract_eq_take_drop]
  exact List.forall₂_take _ (List.forall₂_drop _ h.abandoned)

theorem claimable (h : p.Paired E base base' low low' p') {a a' : Abandoned}
    (same : a.Paired E base base' a') (k : Nat) :
    p.Claimable (base + k) a ↔ p'.Claimable (base' + k) a' := by
  have depth := h.depth
  obtain ⟨-, height, start, claimed⟩ := same
  simp only [Pending.Claimable, claimed, height, depth]
  exact and_congr_right fun _ => and_congr_left fun _ => by omega

theorem claimIndex? (h : p.Paired E base base' low low' p') (k : Nat) :
    p.claimIndex? (base + k) = p'.claimIndex? (base' + k) := by
  have numbered {l l' : List Abandoned}
      (same : List.Forall₂ (Abandoned.Paired E base base') l l') (n : Nat) :
      List.Forall₂ (fun a a' => a.1.Paired E base base' a'.1 ∧ a.2 = a'.2) (l.zipIdx n)
        (l'.zipIdx n) := by
    induction same generalizing n with
    | nil => exact .nil
    | cons first _ ih => exact .cons ⟨first, rfl⟩ (ih (n + 1))
  unfold Pending.claimIndex?
  congr 1
  refine List.rel_foldl (P := (· = ·)) ?_ rfl (numbered h.abandoned 0)
  rintro best _ rfl ⟨a, index⟩ ⟨a', index'⟩ ⟨same, here⟩
  cases here
  have height : a.height = a'.height := same.height
  simp only [h.claimable same k, height]

theorem claim? (h : p.Paired E base base' low low' p') (k : Nat) :
    p.claim? (base + k) = none ∧ p'.claim? (base' + k) = none ∨
    ∃ e e' q q', E e e' ∧ q.Paired E base base' low low' q' ∧
      p.claim? (base + k) = some (e, q) ∧ p'.claim? (base' + k) = some (e', q') := by
  simp only [Pending.claim?, h.claimIndex? k]
  cases p'.claimIndex? (base' + k) with
  | none => exact .inl ⟨rfl, rfl⟩
  | some index =>
    have size : p.abandoned.size = p'.abandoned.size := by simpa using h.abandoned.length_eq
    by_cases inside : index < p'.abandoned.size
    · have here : index < p.abandoned.size := size ▸ inside
      have same := h.abandoned.get (by simpa using here) (by simpa using inside)
      simp only [List.get_eq_getElem, Array.getElem_toList] at same
      let claimed (p : Pending) (a : Abandoned) : Pending :=
        { p with abandoned := p.abandoned.setIfInBounds index { a with claimed := true } }
      have taken : Abandoned.Paired E base base' { p.abandoned[index] with claimed := true }
          { p'.abandoned[index] with claimed := true } :=
        { same with claimed := rfl }
      have marked : (claimed p p.abandoned[index]).Paired E base base' low low'
          (claimed p' p'.abandoned[index]) := by
        refine ⟨h.floor, h.stack, ?_⟩
        simp only [claimed, Array.toList_setIfInBounds]
        exact forall₂_set h.abandoned taken index
      exact .inr ⟨_, _, _, _, same.entry, marked, by simp [here, claimed],
        by simp [inside, claimed]⟩
    · have outside : ¬ index < p.abandoned.size := size ▸ inside
      exact .inl ⟨by simp [outside], by simp [inside]⟩

end Pending.Paired
end Backtrack
