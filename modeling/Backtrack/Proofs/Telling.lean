import Backtrack.Proofs.Defects
import Backtrack.Proofs.Reading

/-! What clean matches tell. A rule tells something of a text when it matches just that wherever the
text stands in front of the rest, leaves no defect, and its trees say so. What a rule tells is put
together from what its parts tell, each of its own place. -/
namespace Backtrack

variable {α β δ : Type}

/-- The text as it stands in the source at a position. -/
def Span.ofText (source : Source) (pos : Nat) (text : Bytes) : Span :=
  clamp source pos (pos + text.length)

theorem Span.ofText_eq {span : Span} {text : Bytes} (last : span.stop = span.start + text.length) :
    ofText span.source span.start text = span := by
  obtain ⟨source, start, stop, ordered, inside⟩ := span
  obtain rfl : stop = start + text.length := last
  simp only [ofText, clamp, Nat.min_eq_left inside, Nat.min_eq_left ordered]

/-- What parts that stand one after another say. -/
def spread (print : δ → Bytes) (said : δ → Nat → List β) : List δ → Nat → List β
  | [], _ => []
  | part :: parts, pos => said part pos ++ spread print said parts (pos + (print part).length)

/-- In front of the rest, the rule matches the text without a defect, and its trees, looked at one
by one, say what is said of the place where the text stands. -/
def Rule.Tells (isDefect : α → Bool) (view : Tree α → List β) (rule : Rule α) (text rest : Bytes)
    (said : Source → Nat → List β) : Prop :=
  ∀ (source : Source) (stop pos : Nat), Faces (inputUpTo source stop) pos (text ++ rest) →
    ∃ f, Derives source stop rule pos (pos + text.length) f ∧ Tree.defects isDefect f = 0 ∧
      f.flatMap view = said source pos

theorem Rule.Reads.tells {isDefect : α → Bool} {view : Tree α → List β} {rule : Rule α}
    {x rest : Bytes} (reads : rule.Reads x rest) (plain : rule.unmarked = true) :
    rule.Tells isDefect view x rest fun _ _ => [] :=
  fun _ _ _ faces => ⟨[], reads.derives plain faces, rfl, rfl⟩

namespace Rule.Tells

variable {isDefect : α → Bool} {view : Tree α → List β} {a b : Rule α} {x y rest : Bytes}
  {said : Source → Nat → List β}

theorem as {said' : Source → Nat → List β} (h : a.Tells isDefect view x rest said) (text : x = y)
    (same : ∀ source pos, said source pos = said' source pos) :
    a.Tells isDefect view y rest said' := by
  subst text
  intro source stop pos faces
  rw [← same]
  exact h source stop pos faces

theorem literal (bytes rest : Bytes) :
    (Rule.literal bytes : Rule α).Tells isDefect view bytes rest fun _ _ => [] :=
  (Reads.literal bytes rest).tells rfl

theorem seq {said' : Source → Nat → List β} (first : a.Tells isDefect view x (y ++ rest) said)
    (second : b.Tells isDefect view y rest said') :
    (a ++ b).Tells isDefect view (x ++ y) rest
      fun source pos => said source pos ++ said' source (pos + x.length) := by
  intro source stop pos faces
  rw [List.append_assoc] at faces
  obtain ⟨f, here, clean, shown⟩ := first source stop pos faces
  obtain ⟨g, behind, clean', shown'⟩ := second source stop _ faces.step
  rw [List.length_append, ← Nat.add_assoc]
  exact ⟨f ++ g, .seq here behind, by simp [clean, clean'], by simp [shown, shown']⟩

theorem choiceLeft (left : a.Tells isDefect view x rest said) :
    (a ||| b).Tells isDefect view x rest said := by
  intro source stop pos faces
  obtain ⟨f, here, kept⟩ := left source stop pos faces
  exact ⟨f, .choiceLeft here, kept⟩

theorem choiceRight (left : a.Rejects (x ++ rest)) (right : b.Tells isDefect view x rest said) :
    (a ||| b).Tells isDefect view x rest said := by
  intro source stop pos faces
  obtain ⟨f, here, kept⟩ := right source stop pos faces
  exact ⟨f, .choiceRight (left _ pos faces) here, kept⟩

theorem foldl_choice {rules : List (Rule α)} (start : a.Tells isDefect view x rest said) :
    (rules.foldl Rule.choice a).Tells isDefect view x rest said := by
  induction rules generalizing a with
  | nil => exact start
  | cons rule rules ih => exact ih start.choiceLeft

/-- The first rule that does not reject the text decides. -/
theorem firstOf {before after : List (Rule α)}
    (others : ∀ rule ∈ before, rule.Rejects (x ++ rest))
    (here : a.Tells isDefect view x rest said) :
    (Rule.firstOf (before ++ a :: after)).Tells isDefect view x rest said := by
  cases before with
  | nil => exact here.foldl_choice
  | cons rule before =>
    obtain ⟨first, others⟩ := List.forall_mem_cons.mp others
    have rejects : (before.foldl Rule.choice rule).Rejects (x ++ rest) :=
      Rejects.foldl_choice first others
    rw [List.cons_append, Rule.firstOf, List.foldl_append, List.foldl_cons]
    exact (here.choiceRight rejects).foldl_choice

theorem effect (h : a.Tells isDefect view x rest said) (e : Effect) :
    (a.effect e).Tells isDefect view x rest said := by
  intro source stop pos faces
  obtain ⟨f, here, kept⟩ := h source stop pos faces
  exact ⟨f, .effect here, kept⟩

/-- An action tells what it makes of its span and of what the trees below it tell. -/
theorem action {γ : Type} {inner : Tree α → List γ} {told : Source → Nat → List γ} {act : α}
    (h : a.Tells isDefect inner x rest told) (sound : isDefect act = false)
    (shows : ∀ source pos f, f.flatMap inner = told source pos → Tree.defects isDefect f = 0 →
      view (.node act (.ofText source pos x) f) = said source pos) :
    (a.action act).Tells isDefect view x rest said := by
  intro source stop pos faces
  obtain ⟨f, here, clean, shown⟩ := h source stop pos faces
  obtain ⟨span, rfl, rfl, last, whole⟩ := here.marked faces.inside act
  refine ⟨_, whole, by simp [Tree.defects_node, clean, sound], ?_⟩
  have same := shows span.source span.start f shown clean
  rw [Span.ofText_eq last] at same
  simpa using same

/-- An action that is told by its span alone. -/
theorem spanned {γ : Type} {inner : Tree α → List γ} {told : Source → Nat → List γ} {act : α}
    (h : a.Tells isDefect inner x rest told) (made : Span → List β) (sound : isDefect act = false)
    (shows : ∀ span f, view (.node act span f) = made span) :
    (a.action act).Tells isDefect view x rest fun source pos => made (.ofText source pos x) :=
  h.action sound fun _ _ _ _ _ => shows _ _

/-- An action over a rule without actions. -/
theorem leaf (reads : a.Reads x rest) (plain : a.unmarked = true) {act : α}
    (sound : isDefect act = false) : (a.action act).Tells isDefect view x rest
      fun source pos => view (.node act (.ofText source pos x) []) := by
  intro source stop pos faces
  obtain ⟨span, rfl, rfl, last, whole⟩ := (reads.derives plain faces).marked faces.inside act
  refine ⟨_, whole, by simp [Tree.defects_node, sound], ?_⟩
  simp [Span.ofText_eq last]

theorem optional (h : a.Tells isDefect view x rest said) :
    (Rule.optional a).Tells isDefect view x rest said := by
  intro source stop pos faces
  obtain ⟨f, here, kept⟩ := h source stop pos faces
  exact ⟨f, .optional here, kept⟩

theorem optionalNone (absent : a.Rejects rest) :
    (Rule.optional a).Tells isDefect view [] rest fun _ _ => [] :=
  fun _ _ _ faces => ⟨[], .optionalFail (absent _ _ faces), rfl, rfl⟩

theorem manyNil (last : a.Rejects rest) :
    (Rule.many a).Tells isDefect view [] rest fun _ _ => [] :=
  fun _ _ _ faces => ⟨[], .manyFail (last _ _ faces), rfl, rfl⟩

theorem manyCons {said' : Source → Nat → List β}
    (once : a.Tells isDefect view x (y ++ rest) said) (filled : x ≠ [])
    (more : (Rule.many a).Tells isDefect view y rest said') :
    (Rule.many a).Tells isDefect view (x ++ y) rest
      fun source pos => said source pos ++ said' source (pos + x.length) := by
  intro source stop pos faces
  rw [List.append_assoc] at faces
  obtain ⟨f, here, clean, shown⟩ := once source stop pos faces
  obtain ⟨g, behind, clean', shown'⟩ := more source stop _ faces.step
  have moved : pos + x.length ≠ pos := by
    have positive := List.length_pos_iff.mpr filled
    omega
  rw [List.length_append, ← Nat.add_assoc]
  exact ⟨f ++ g, .manyNext here moved behind, by simp [clean, clean'], by simp [shown, shown']⟩

/-- Repetitions of one rule over parts that are printed one after another. -/
theorem many {print : δ → Bytes} {said : Source → δ → Nat → List β} (parts : List δ)
    (each : ∀ (part : δ) (more : List δ), a.Tells isDefect view (print part)
      (more.flatMap print ++ rest) fun source => said source part)
    (filled : ∀ part, print part ≠ []) (last : a.Rejects rest) :
    (Rule.many a).Tells isDefect view (parts.flatMap print) rest
      fun source => spread print (said source) parts := by
  induction parts with
  | nil => exact manyNil last
  | cons part parts ih => exact (each part parts).manyCons (filled part) ih

end Rule.Tells
end Backtrack
