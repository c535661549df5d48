import Backtrack.Proofs.Balance
import Backtrack.Proofs.Legible
import Backtrack.Proofs.Openings

/-! What a failure leaves behind. An attempt that fails moves its waiting messages to the abandoned
list, beside what its failed parts have left there; an attempt that succeeds clears what its parts
have left. So a rule has a bound on how many entries a failure of it adds, which loops do not raise:
whatever the iterations of a repetition leave is forgotten, since a repetition never fails. -/
namespace Backtrack

variable {σ α : Type}

namespace Rule

/-- How much higher a match of the rule leaves the stack of waiting messages. -/
def gain (rule : Rule α) : Nat :=
  (rule.draw? Stack.pending.draw).elim 0 fun draw => draw.left - draw.need

/-- How many entries a failure of the rule adds to the abandoned list at most. -/
def residue : Rule α → Nat
  | seq a b => max a.residue (b.residue + a.gain)
  | choice a b =>
    if Outlook.apart a.opening? b.opening? then max a.residue b.residue
    else a.residue + b.residue
  | difference a _ => max a.residue a.gain
  | many1 a | action a _ | effect a _ => a.residue
  | _ => 0

theorem gain_eq {rule : Rule α} {draw : Draw} (known : rule.draw? Stack.pending.draw = some draw) :
    rule.gain = draw.left - draw.need := by
  rw [gain, known, Option.elim_some]

end Rule

namespace Diagnostics

/-- How many entries are on the abandoned list. -/
def left (d : Diagnostics σ) : Nat := d.pending.abandoned.size

@[simp] theorem left_rewind (d : Diagnostics σ) (mark : DiagnosticMark) (start : Nat) :
    (d.rewind mark start).left = d.left + (d.pending.depth - mark.depth) := by
  simp only [left, rewind, Pending.abandonFrom, Pending.depth]
  split
  · omega
  · rw [← Array.length_toList, Array.toList_appendList]
    simp

theorem left_settle (d e : Diagnostics σ) : (e.settle d.mark).left ≤ d.left := by
  simp only [left, settle, mark, Array.size_shrink]
  exact Nat.min_le_left ..

end Diagnostics

/-- A stage that began in `d` leaves at most `count` entries behind if it fails, those included that
an end of the attempt would abandon. An attempt that succeeds leaves none. -/
def Verdict.Leaves (count : Nat) (d : Diagnostics σ) : Stage → Verdict σ α → Prop
  | .body, .ok none s =>
    s.diagnostics.left + (s.diagnostics.pending.depth - d.pending.depth) ≤ d.left + count
  | .attempt, .ok none s => s.diagnostics.left ≤ d.left + count
  | .attempt, .ok (some _) s => s.diagnostics.left ≤ d.left
  | _, _ => True

namespace Verdict.Leaves

variable {count more k n : Nat} {d e : Diagnostics σ} {s : Matching σ α} {r : Verdict σ α}

theorem close {pos : Nat} (h : r.Leaves count s.diagnostics .body) :
    (s.close pos r).Leaves count s.diagnostics .attempt := by
  rcases r with ⟨_ | next, s'⟩ | ⟨stop, s'⟩
  · change (s'.diagnostics.rewind s.diagnostics.mark pos).left ≤ _
    rw [Diagnostics.left_rewind]
    exact h
  · exact Diagnostics.left_settle ..
  · trivial

/-- The last part of a body that has failed. Before it `k` entries were left behind, and the stack
was `n` higher. -/
theorem last {draw : Draw} (h : r.Leaves count e .attempt)
    (drawn : Drawn .pending .attempt draw e.pending.depth r) (before : e.left ≤ d.left + k)
    (height : e.pending.depth = d.pending.depth + n) : r.Leaves (k + count + n) d .body := by
  rcases r with ⟨_ | next, s'⟩ | ⟨stop, s'⟩
  · have depth : s'.diagnostics.pending.depth = e.pending.depth := drawn
    have left : s'.diagnostics.left ≤ e.left + count := h
    change s'.diagnostics.left + (s'.diagnostics.pending.depth - d.pending.depth) ≤ _
    omega
  · trivial
  · trivial

theorem mono (h : r.Leaves count d .body) (le : count ≤ more) : r.Leaves more d .body := by
  rcases r with ⟨_ | next, s'⟩ | ⟨stop, s'⟩
  · exact Nat.le_trans h (Nat.add_le_add_left le _)
  · trivial
  · trivial

/-- The first part of a body that has failed. -/
theorem only {draw : Draw} (h : r.Leaves count d .attempt)
    (drawn : Drawn .pending .attempt draw d.pending.depth r) : r.Leaves count d .body := by
  have whole := h.last (k := 0) (n := 0) drawn (Nat.le_refl _) rfl
  exact whole.mono (by omega)

end Verdict.Leaves

section Residues

variable {subject : Subject σ} {stage : Stage} {rule : Rule α} {pos : Nat} {s : Matching σ α}
  {t : List (Performance σ)} {r : Verdict σ α}

/-- A match that may be taken back leaves the stack as much higher as the rule gains. -/
theorem Evaluates.gains {next : Nat} {s' : Matching σ α} {draw : Draw}
    (h : Evaluates subject .attempt rule false pos s t (.ok (some next) s'))
    (known : rule.draw? Stack.pending.draw = some draw) (rising : draw.need ≤ draw.left)
    (enough : draw.need ≤ s.diagnostics.pending.depth) :
    s'.diagnostics.pending.depth = s.diagnostics.pending.depth + rule.gain := by
  have moved : s'.diagnostics.pending.depth + draw.need =
      s.diagnostics.pending.depth + draw.left := (h.drawn known enough).1
  have gained := Rule.gain_eq known
  omega

/-- Of two rules that begin apart, one leaves nothing behind. -/
theorem Evaluates.leaves_apart {a b : Rule α} {s₁ s₂ : Matching σ α} {u : List (Performance σ)}
    (left : Evaluates subject .attempt a false pos s t (.ok none s₁))
    (right : Evaluates subject .attempt b false pos s₁ u (.ok none s₂))
    (apart : Outlook.apart a.opening? b.opening? = true) : s₁ = s ∨ s₂ = s₁ := by
  by_cases opened : Outlook.Allows a.opening? subject.input[pos]?
  · have still := (right.unopened (Outlook.not_allows_of_apart apart opened)).2
    cases still
    exact .inr rfl
  · have still := (left.unopened opened).2
    cases still
    exact .inl rfl

theorem Evaluates.leaves {draw : Draw} (h : Evaluates subject stage rule false pos s t r)
    (known : rule.draw? Stack.pending.draw = some draw)
    (enough : draw.need ≤ s.diagnostics.pending.depth) :
    r.Leaves rule.residue s.diagnostics stage := by
  generalize loud : false = silent at h
  induction h generalizing draw with
  | @leaf _ _ _ s m _ =>
    cases m with
    | none =>
      change s.diagnostics.left + (s.diagnostics.pending.depth - s.diagnostics.pending.depth) ≤ _
      omega
    | some next => trivial
  | seqEnd first _ ih =>
    subst loud
    obtain ⟨d, e, knownFirst, -, -, rfl⟩ := Rule.draw?_seq known
    have enough := Nat.le_trans (Draw.need_andThen ..) enough
    exact ((ih knownFirst enough rfl).only (first.drawn knownFirst enough).1).mono
      (Nat.le_max_left ..)
  | @seqNext a b _ _ _ _ _ _ _ _ first second ih₁ ih₂ =>
    subst loud
    obtain ⟨d, e, knownFirst, rising, knownSecond, rfl⟩ := Rule.draw?_seq known
    have enough₁ := Nat.le_trans (Draw.need_andThen ..) enough
    have moved : Stack.Moves .pending d _ _ := (first.drawn knownFirst enough₁).1
    have enough₂ := Stack.Moves.enough_then moved enough
    have whole := (ih₂ knownSecond enough₂ rfl).last (k := 0)
      (second.drawn knownSecond enough₂).1 (ih₁ knownFirst enough₁ rfl)
      (first.gains knownFirst rising enough₁)
    refine whole.mono ?_
    rw [Nat.zero_add]
    exact Nat.le_max_right ..
  | @choiceEnd _ _ _ _ _ _ r _ ends =>
    rcases r with ⟨_ | next, s'⟩ | ⟨stop, s'⟩
    · exact absurd rfl (ends s')
    · trivial
    · trivial
  | @choiceNext a b _ _ s _ s₁ _ r left right ih₁ ih₂ =>
    subst loud
    obtain ⟨⟨d, knownLeft, lessLeft, -⟩, ⟨e, knownRight, lessRight, -⟩⟩ := Rule.draw?_choice known
    have enough₁ := Nat.le_trans lessLeft enough
    have height : s₁.diagnostics.pending.depth = s.diagnostics.pending.depth :=
      (left.drawn knownLeft enough₁).1
    have enough₂ : e.need ≤ s₁.diagnostics.pending.depth :=
      Nat.le_trans lessRight (height.symm ▸ enough)
    have drawn := (right.drawn knownRight enough₂).1
    have first : s₁.diagnostics.left ≤ s.diagnostics.left + a.residue := ih₁ knownLeft enough₁ rfl
    have whole := (ih₂ knownRight enough₂ rfl).last (n := 0) drawn first height
    rw [Rule.residue]
    split
    next apart =>
      rcases r with ⟨_ | next, s₂⟩ | ⟨stop, s₂⟩
      · rcases left.leaves_apart right apart with rfl | rfl
        · exact ((ih₂ knownRight enough₂ rfl).only drawn).mono (Nat.le_max_right ..)
        · exact Verdict.Leaves.mono
            ((ih₁ knownLeft enough₁ rfl).only (left.drawn knownLeft enough₁).1)
            (Nat.le_max_left ..)
      · trivial
      · trivial
    next => exact whole
  | differenceEnd keep _ ih =>
    subst loud
    obtain ⟨knownKeep, -⟩ := Rule.draw?_difference known
    exact ((ih knownKeep enough rfl).only (keep.drawn knownKeep enough).1).mono
      (Nat.le_max_left ..)
  | differenceStop => trivial
  | @differenceNext a _ _ _ s _ next s₁ _ m _ keep excluded ih =>
    subst loud
    obtain ⟨knownKeep, rising⟩ := Rule.draw?_difference known
    have height := keep.gains knownKeep rising enough
    have cleared : s₁.diagnostics.left ≤ s.diagnostics.left := ih knownKeep enough rfl
    obtain ⟨-, _, same⟩ := excluded.silent_unchanged
    cases same
    split
    · have bound : a.gain ≤ (Rule.difference a ‹_›).residue := Nat.le_max_right ..
      change s₁.diagnostics.left + (s₁.diagnostics.pending.depth - s.diagnostics.pending.depth) ≤ _
      omega
    · trivial
  | optionalStop | optionalNext | manyStop | manyEnd => trivial
  | @manyNext _ _ _ _ _ _ _ _ r _ _ rest | @many1Next _ _ _ _ _ _ _ _ r _ _ rest =>
    rcases r with ⟨_ | next, s'⟩ | ⟨stop, s'⟩
    · exact absurd rest.recognizes Recognizes.not_many_none
    · trivial
    · trivial
  | many1End once _ ih =>
    subst loud
    obtain ⟨knownPart, level⟩ := Rule.draw?_level known
    exact (ih knownPart enough rfl).only (once.drawn knownPart enough).1
  | actionSilent => cases loud
  | actionEnd part _ ih =>
    exact (ih known enough rfl).only (part.drawn known enough).1
  | effectSilent => cases loud
  | effectEnd part _ ih =>
    obtain ⟨d, knownPart, rfl⟩ := Rule.draw?_effect known
    have enough := Nat.le_trans (Draw.need_andThen ..) enough
    exact (ih knownPart enough rfl).only (part.drawn knownPart enough).1
  | actionNext | effectStop | effectNext => trivial
  | close _ ih => exact (ih known enough loud).close

end Residues
end Backtrack
