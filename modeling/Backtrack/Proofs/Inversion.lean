import Backtrack.Proofs.ByteClasses
import Backtrack.Proofs.Derivation

/-! Rules read from the outside in. What a rule with parts recognises, derives or evaluates to is
told by its parts, one statement for each way of putting rules together. -/
namespace Backtrack

variable {σ α : Type}

section Recognition

variable {input : Bytes} {a b : Rule α} {pos next : Nat} {m : Option Nat}

theorem Recognizes.seq_iff : Recognizes input (.seq a b) pos m ↔
    (Recognizes input a pos none ∧ m = none) ∨
      ∃ mid, Recognizes input a pos (some mid) ∧ Recognizes input b mid m := by
  constructor
  · intro h
    cases h with
    | leaf found => simp [Rule.leaf?] at found
    | seqFail first => exact .inl ⟨first, rfl⟩
    | seq first second => exact .inr ⟨_, first, second⟩
  · rintro (⟨first, rfl⟩ | ⟨mid, first, second⟩)
    · exact .seqFail first
    · exact .seq first second

theorem Recognizes.seq_some_iff : Recognizes input (.seq a b) pos (some next) ↔
    ∃ mid, Recognizes input a pos (some mid) ∧ Recognizes input b mid (some next) := by
  simp [seq_iff]

theorem Recognizes.choice_iff : Recognizes input (.choice a b) pos m ↔
    (m.isSome ∧ Recognizes input a pos m) ∨
      (Recognizes input a pos none ∧ Recognizes input b pos m) := by
  constructor
  · intro h
    cases h with
    | leaf found => simp [Rule.leaf?] at found
    | choiceLeft left => exact .inl ⟨rfl, left⟩
    | choiceRight left right => exact .inr ⟨left, right⟩
  · rintro (⟨matched, left⟩ | ⟨left, right⟩)
    · obtain ⟨next, rfl⟩ := Option.isSome_iff_exists.mp matched
      exact .choiceLeft left
    · exact .choiceRight left right

theorem Recognizes.choice_none_iff : Recognizes input (.choice a b) pos none ↔
    Recognizes input a pos none ∧ Recognizes input b pos none := by
  simp [choice_iff]

@[simp] theorem Recognizes.action_iff {act : α} :
    Recognizes input (.action a act) pos m ↔ Recognizes input a pos m := by
  refine ⟨fun h => ?_, .action⟩
  cases h with
  | leaf found => simp [Rule.leaf?] at found
  | action part => exact part

@[simp] theorem Recognizes.effect_iff {e : Effect} :
    Recognizes input (.effect a e) pos m ↔ Recognizes input a pos m := by
  refine ⟨fun h => ?_, .effect⟩
  cases h with
  | leaf found => simp [Rule.leaf?] at found
  | effect part => exact part

theorem Recognizes.optional_iff : Recognizes input (.optional a) pos m ↔
    ∃ part, Recognizes input a pos part ∧ m = some (part.getD pos) := by
  constructor
  · intro h
    cases h with
    | leaf found => simp [Rule.leaf?] at found
    | optional part => exact ⟨_, part, rfl⟩
  · rintro ⟨part, here, rfl⟩
    exact .optional here

theorem Recognizes.difference_iff : Recognizes input (.difference a b) pos m ↔
    (Recognizes input a pos none ∧ m = none) ∨
      ∃ next other, Recognizes input a pos (some next) ∧ Recognizes input b pos other ∧
        m = if other.any (next ≤ ·) then none else some next := by
  constructor
  · intro h
    cases h with
    | leaf found => simp [Rule.leaf?] at found
    | differenceFail keep => exact .inl ⟨keep, rfl⟩
    | difference keep excluded => exact .inr ⟨_, _, keep, excluded, rfl⟩
  · rintro (⟨keep, rfl⟩ | ⟨next, other, keep, excluded, rfl⟩)
    · exact .differenceFail keep
    · exact .difference keep excluded

theorem Recognizes.leaf_iff {rule : Rule α} {found : Option Nat}
    (leaf : rule.leaf? input pos = some found) : Recognizes input rule pos m ↔ m = found :=
  ⟨fun h => h.unique (.leaf leaf), fun same => same ▸ .leaf leaf⟩

/-- A literal matches where it stands. -/
theorem Recognizes.literal_iff {bytes : Bytes} :
    Recognizes input (.literal bytes : Rule α) pos m ↔
      m = if bytes <+: input.drop pos then some (pos + bytes.length) else none :=
  leaf_iff rfl

theorem Recognizes.literal_none_iff {bytes : Bytes} :
    Recognizes input (.literal bytes : Rule α) pos none ↔ ¬ bytes <+: input.drop pos := by
  simp [literal_iff]

theorem Recognizes.set_iff {s : CharSet} : Recognizes input (.set s : Rule α) pos m ↔
    m = if (input[pos]?).any s.contains then some (pos + 1) else none :=
  leaf_iff rfl

/-- A byte is matched like the literal of it alone. -/
theorem Recognizes.byte_iff {b : UInt8} : Recognizes input (.byte b : Rule α) pos m ↔
    Recognizes input (.literal [b] : Rule α) pos m := by
  have same : (input[pos]?).any (CharSet.ofBytes [b]).contains =
      decide ([b] <+: input.drop pos) := by
    rw [← List.head?_drop]
    cases input.drop pos with
    | nil => rfl
    | cons c rest =>
      rw [List.head?_cons, Option.any_some, Bool.eq_iff_iff, CharSet.contains_byte,
        decide_eq_true_eq, List.cons_prefix_cons]
      simp [eq_comm]
  rw [Rule.byte, set_iff, literal_iff, same]
  simp

end Recognition

section Derivations

variable {source : Source} {stop : Nat} {a b : Rule α} {pos next : Nat} {f : List (Tree α)}

theorem Derives.seq_iff : Derives source stop (.seq a b) pos next f ↔
    ∃ mid g h, Derives source stop a pos mid g ∧ Derives source stop b mid next h ∧
      f = g ++ h := by
  constructor
  · intro h
    cases h with
    | leaf found => simp [Rule.leaf?] at found
    | seq first second => exact ⟨_, _, _, first, second, rfl⟩
  · rintro ⟨mid, g, h, first, second, rfl⟩
    exact .seq first second

theorem Derives.choice_iff : Derives source stop (.choice a b) pos next f ↔
    Derives source stop a pos next f ∨
      (Recognizes (inputUpTo source stop) a pos none ∧ Derives source stop b pos next f) := by
  constructor
  · intro h
    cases h with
    | leaf found => simp [Rule.leaf?] at found
    | choiceLeft left => exact .inl left
    | choiceRight left right => exact .inr ⟨left, right⟩
  · rintro (left | ⟨left, right⟩)
    · exact .choiceLeft left
    · exact .choiceRight left right

theorem Derives.optional_iff : Derives source stop (.optional a) pos next f ↔
    Derives source stop a pos next f ∨
      (Recognizes (inputUpTo source stop) a pos none ∧ next = pos ∧ f = []) := by
  constructor
  · intro h
    cases h with
    | leaf found => simp [Rule.leaf?] at found
    | optional part => exact .inl part
    | optionalFail part => exact .inr ⟨part, rfl, rfl⟩
  · rintro (part | ⟨part, rfl, rfl⟩)
    · exact .optional part
    · exact .optionalFail part

theorem Derives.action_iff {act : α} : Derives source stop (.action a act) pos next f ↔
    ∃ (span : Span) (g : List (Tree α)), Derives source stop a pos next g ∧
      span.source = source ∧ span.start = pos ∧ span.stop = next ∧ f = [.node act span g] := by
  constructor
  · intro h
    cases h with
    | leaf found => simp [Rule.leaf?] at found
    | action part inSource start last => exact ⟨_, _, part, inSource, start, last, rfl⟩
  · rintro ⟨span, g, part, inSource, start, last, rfl⟩
    exact .action part inSource start last

@[simp] theorem Derives.effect_iff {e : Effect} : Derives source stop (.effect a e) pos next f ↔
    Derives source stop a pos next f := by
  refine ⟨fun h => ?_, .effect⟩
  cases h with
  | leaf found => simp [Rule.leaf?] at found
  | effect part => exact part

/-- The actions that may stand at the top of what the rule leaves in the journal. -/
def Rule.marks : Rule α → List α
  | seq a b | choice a b => a.marks ++ b.marks
  | difference a _ | optional a | many a | many1 a | effect a _ => a.marks
  | action _ act => [act]
  | _ => []

theorem Derives.action_mem {rule : Rule α} (h : Derives source stop rule pos next f) :
    ∀ tree ∈ f, tree.action ∈ rule.marks := by
  induction h with
  | leaf | optionalFail | manyFail => nofun
  | seq _ _ ih₁ ih₂ =>
    exact List.forall_mem_append.mpr ⟨fun tree member => List.mem_append_left _ (ih₁ tree member),
      fun tree member => List.mem_append_right _ (ih₂ tree member)⟩
  | choiceLeft _ ih => exact fun tree member => List.mem_append_left _ (ih tree member)
  | choiceRight _ _ ih => exact fun tree member => List.mem_append_right _ (ih tree member)
  | difference _ _ _ ih | optional _ ih | manyEmpty _ ih | many1Empty _ ih | effect _ ih => exact ih
  | manyNext _ _ _ ih₁ ih₂ | many1Next _ _ _ ih₁ ih₂ =>
    exact List.forall_mem_append.mpr ⟨ih₁, ih₂⟩
  | action => exact List.forall_mem_singleton.mpr (List.mem_singleton_self _)

end Derivations

section Evaluations

variable {subject : Subject σ} {a b : Rule α} {silent : Bool} {pos next : Nat}
  {s s' : Matching σ α} {t : List (Performance σ)}

theorem Evaluates.body_of_none {rule : Rule α}
    (h : Evaluates subject .attempt rule silent pos s t (.ok none s')) :
    ∃ s₁, Evaluates subject .body rule silent pos s t (.ok none s₁) ∧
      s'.diagnostics = s₁.diagnostics.rewind s.diagnostics.mark pos := by
  generalize returned : EStateM.Result.ok none s' = r at h
  cases h with
  | @close _ _ _ _ _ r body =>
    rcases r with ⟨_ | next, s₁⟩ | ⟨stop, s₁⟩ <;> cases returned
    exact ⟨s₁, body, rfl⟩

theorem Evaluates.body_of_some {rule : Rule α}
    (h : Evaluates subject .attempt rule silent pos s t (.ok (some next) s')) :
    ∃ s₁, Evaluates subject .body rule silent pos s t (.ok (some next) s₁) ∧
      s'.diagnostics = s₁.diagnostics.settle s.diagnostics.mark := by
  generalize returned : EStateM.Result.ok (some next) s' = r at h
  cases h with
  | @close _ _ _ _ _ r body =>
    rcases r with ⟨_ | next, s₁⟩ | ⟨stop, s₁⟩ <;> cases returned
    exact ⟨s₁, body, rfl⟩

theorem Evaluates.seq_none
    (h : Evaluates subject .attempt (.seq a b) silent pos s t (.ok none s')) :
    (∃ s₁, Evaluates subject .attempt a silent pos s t (.ok none s₁) ∧
      s'.diagnostics = s₁.diagnostics.rewind s.diagnostics.mark pos) ∨
    ∃ mid s₁ u v s₂, Evaluates subject .attempt a silent pos s u (.ok (some mid) s₁) ∧
      Evaluates subject .attempt b silent mid s₁ v (.ok none s₂) ∧ t = u ++ v ∧
      s'.diagnostics = s₂.diagnostics.rewind s.diagnostics.mark pos := by
  obtain ⟨s₂, body, rewound⟩ := h.body_of_none
  cases body with
  | leaf found => simp [Rule.leaf?] at found
  | seqEnd first => exact .inl ⟨s₂, first, rewound⟩
  | seqNext first second => exact .inr ⟨_, _, _, _, s₂, first, second, rfl, rewound⟩

theorem Evaluates.seq_some
    (h : Evaluates subject .attempt (.seq a b) silent pos s t (.ok (some next) s')) :
    ∃ mid s₁ u v s₂, Evaluates subject .attempt a silent pos s u (.ok (some mid) s₁) ∧
      Evaluates subject .attempt b silent mid s₁ v (.ok (some next) s₂) ∧ t = u ++ v ∧
      s'.diagnostics = s₂.diagnostics.settle s.diagnostics.mark := by
  obtain ⟨s₂, body, settled⟩ := h.body_of_some
  cases body with
  | leaf found => simp [Rule.leaf?] at found
  | seqEnd _ ends => cases ends
  | seqNext first second => exact ⟨_, _, _, _, s₂, first, second, rfl, settled⟩

theorem Evaluates.choice_none
    (h : Evaluates subject .attempt (.choice a b) silent pos s t (.ok none s')) :
    ∃ s₁ u v s₂, Evaluates subject .attempt a silent pos s u (.ok none s₁) ∧
      Evaluates subject .attempt b silent pos s₁ v (.ok none s₂) ∧ t = u ++ v ∧
      s'.diagnostics = s₂.diagnostics.rewind s.diagnostics.mark pos := by
  obtain ⟨s₂, body, rewound⟩ := h.body_of_none
  cases body with
  | leaf found => simp [Rule.leaf?] at found
  | choiceEnd _ ends => exact absurd rfl (ends s₂)
  | choiceNext left right => exact ⟨_, _, _, s₂, left, right, rfl, rewound⟩

theorem Evaluates.choice_some
    (h : Evaluates subject .attempt (.choice a b) silent pos s t (.ok (some next) s')) :
    (∃ s₁, Evaluates subject .attempt a silent pos s t (.ok (some next) s₁) ∧
      s'.diagnostics = s₁.diagnostics.settle s.diagnostics.mark) ∨
    ∃ s₁ u v s₂, Evaluates subject .attempt a silent pos s u (.ok none s₁) ∧
      Evaluates subject .attempt b silent pos s₁ v (.ok (some next) s₂) ∧ t = u ++ v ∧
      s'.diagnostics = s₂.diagnostics.settle s.diagnostics.mark := by
  obtain ⟨s₂, body, settled⟩ := h.body_of_some
  cases body with
  | leaf found => simp [Rule.leaf?] at found
  | choiceEnd left => exact .inl ⟨s₂, left, settled⟩
  | choiceNext left right => exact .inr ⟨_, _, _, s₂, left, right, rfl, settled⟩

theorem Evaluates.effect_none {e : Effect}
    (h : Evaluates subject .attempt (.effect a e) false pos s t (.ok none s')) :
    ∃ s₁, Evaluates subject .attempt a false pos s t (.ok none s₁) ∧
      s'.diagnostics = s₁.diagnostics.rewind s.diagnostics.mark pos := by
  obtain ⟨s₁, body, rewound⟩ := h.body_of_none
  cases body with
  | leaf found => simp [Rule.leaf?] at found
  | effectEnd part => exact ⟨s₁, part, rewound⟩

theorem Evaluates.effect_some {e : Effect}
    (h : Evaluates subject .attempt (.effect a e) false pos s t (.ok (some next) s')) :
    ∃ s₁ u d, Evaluates subject .attempt a false pos s u (.ok (some next) s₁) ∧
      let p : Performance σ := ⟨e, pos, next, s₁.diagnostics⟩
      t = u ++ [p] ∧ p.outcome subject = .ok () d ∧
      s'.diagnostics = d.settle s.diagnostics.mark := by
  obtain ⟨s₁, body, settled⟩ := h.body_of_some
  cases body with
  | leaf found => simp [Rule.leaf?] at found
  | effectEnd _ ends => cases ends
  | effectNext part done => exact ⟨_, _, _, part, rfl, done, settled⟩

theorem Evaluates.action_some {act : α}
    (h : Evaluates subject .attempt (.action a act) false pos s t (.ok (some next) s')) :
    ∃ s₀ s₁, Evaluates subject .attempt a false pos s₀ t (.ok (some next) s₁) ∧
      s₀.diagnostics = s.diagnostics ∧
      s'.diagnostics = s₁.diagnostics.settle s.diagnostics.mark := by
  obtain ⟨s₂, body, settled⟩ := h.body_of_some
  cases body with
  | leaf found => simp [Rule.leaf?] at found
  | actionEnd _ ends => cases ends
  | actionNext part => exact ⟨_, _, part, rfl, settled⟩

end Evaluations
end Backtrack
