import Backtrack.Proofs.FileLines
import Backtrack.Proofs.Legible

/-! Reading printed text. A rule reads a text in front of a rest when it matches just that wherever
the two stand, and rejects a rest that it fails at. What a rule reads is put together from what its
parts read, each in front of what the next one reads. -/
namespace Backtrack

variable {α : Type}

/-- From the position on, the input holds these bytes. -/
structure Faces (input : Bytes) (pos : Nat) (ahead : Bytes) : Prop where
  inside : pos ≤ input.length
  drop : input.drop pos = ahead

namespace Faces

variable {input x rest : Bytes} {pos : Nat}

theorem start {source : Source} (whole : source.toList = x) :
    Faces (inputUpTo source source.size) 0 x := by
  rw [inputUpTo_size, whole]
  exact ⟨Nat.zero_le _, rfl⟩

theorem step (faces : Faces input pos (x ++ rest)) : Faces input (pos + x.length) rest := by
  have length := congrArg List.length faces.drop
  rw [List.length_drop, List.length_append] at length
  have inside := faces.inside
  refine ⟨by omega, ?_⟩
  rw [← List.drop_drop, faces.drop, List.drop_left]

theorem head (faces : Faces input pos rest) : input[pos]? = rest.head? := by
  rw [← faces.drop, List.head?_drop]

end Faces

/-- The rule matches the text in front of the rest. -/
def Rule.Reads (rule : Rule α) (text rest : Bytes) : Prop :=
  ∀ input pos, Faces input pos (text ++ rest) →
    Recognizes input rule pos (some (pos + text.length))

/-- The rule does not match in front of the rest. -/
def Rule.Rejects (rule : Rule α) (rest : Bytes) : Prop :=
  ∀ input pos, Faces input pos rest → Recognizes input rule pos none

section Combinators

variable {a b : Rule α} {x y rest : Bytes}

namespace Rule.Reads

theorem seq (first : a.Reads x (y ++ rest)) (second : b.Reads y rest) :
    (a ++ b).Reads (x ++ y) rest := by
  intro input pos faces
  rw [List.append_assoc] at faces
  have behind := second input _ faces.step
  rw [List.length_append, ← Nat.add_assoc]
  exact .seq (first input pos faces) behind

theorem choiceRight (left : a.Rejects (x ++ rest)) (right : b.Reads x rest) :
    (a ||| b).Reads x rest :=
  fun input pos faces => .choiceRight (left input pos faces) (right input pos faces)

theorem optional (part : a.Reads x rest) : (Rule.optional a).Reads x rest :=
  fun input pos faces => .optional (part input pos faces)

theorem effect (part : a.Reads x rest) (e : Effect) : (a.effect e).Reads x rest :=
  fun input pos faces => .effect (part input pos faces)

theorem difference (keep : a.Reads x rest) (excluded : b.Rejects (x ++ rest)) :
    (a \ b).Reads x rest := by
  intro input pos faces
  have whole := Recognizes.difference (keep input pos faces) (excluded input pos faces)
  exact whole

theorem empty (rest : Bytes) : (Rule.empty : Rule α).Reads [] rest :=
  fun _ _ _ => .leaf rfl

theorem literal (bytes rest : Bytes) : (Rule.literal bytes : Rule α).Reads bytes rest := by
  intro input pos faces
  refine .leaf ?_
  rw [leaf?, faces.drop, if_pos (List.prefix_append ..)]

theorem set {s : CharSet} {c : UInt8} (member : s.contains c = true) (rest : Bytes) :
    (Rule.set s : Rule α).Reads [c] rest := by
  intro input pos faces
  refine .leaf ?_
  simp [leaf?, faces.head, member]

/-- Repetitions that read a byte each. -/
theorem many (each : ∀ c z, c :: z <:+ x → a.Reads [c] (z ++ rest)) (last : a.Rejects rest) :
    (Rule.many a).Reads x rest := by
  intro input pos faces
  induction x generalizing pos with
  | nil => exact .manyEnd (last input pos faces) (.inl rfl)
  | cons c z ih =>
    have once := each c z (List.suffix_refl _) input pos faces
    have again := ih (fun c' z' suffix => each c' z' (suffix.trans (List.suffix_cons ..))) (pos + 1)
      (faces.step (x := [c]))
    rw [List.length_cons, Nat.add_comm z.length, ← Nat.add_assoc]
    exact .manyNext once (Nat.succ_ne_self pos) again

end Rule.Reads

namespace Rule.Rejects

theorem seq (first : a.Rejects rest) : (a ++ b).Rejects rest :=
  fun input pos faces => .seqFail (first input pos faces)

theorem seqSecond (first : a.Reads x rest) (second : b.Rejects rest) :
    (a ++ b).Rejects (x ++ rest) :=
  fun input pos faces => .seq (first input pos faces) (second input _ faces.step)

theorem choice (left : a.Rejects rest) (right : b.Rejects rest) : (a ||| b).Rejects rest :=
  fun input pos faces => .choiceRight (left input pos faces) (right input pos faces)

theorem difference (keep : a.Rejects rest) : (a \ b).Rejects rest :=
  fun input pos faces => .differenceFail (keep input pos faces)

theorem effect (part : a.Rejects rest) (e : Effect) : (a.effect e).Rejects rest :=
  fun input pos faces => .effect (part input pos faces)

theorem action (part : a.Rejects rest) (act : α) : (a.action act).Rejects rest :=
  fun input pos faces => .action (part input pos faces)

theorem many1 (part : a.Rejects rest) : (Rule.many1 a).Rejects rest :=
  fun input pos faces => .many1End (part input pos faces) (.inl rfl)

theorem foldl_choice {rules : List (Rule α)} (start : a.Rejects rest)
    (each : ∀ rule ∈ rules, rule.Rejects rest) : (rules.foldl Rule.choice a).Rejects rest := by
  induction rules generalizing a with
  | nil => exact start
  | cons rule rules ih =>
    obtain ⟨here, others⟩ := List.forall_mem_cons.mp each
    exact ih (start.choice here) others

theorem firstOf {rules : List (Rule α)} (each : ∀ rule ∈ rules, rule.Rejects rest) :
    (Rule.firstOf rules).Rejects rest := by
  cases rules with
  | nil => exact fun input pos faces => .leaf rfl
  | cons rule rules =>
    obtain ⟨here, others⟩ := List.forall_mem_cons.mp each
    exact here.foldl_choice others

theorem literal {bytes : Bytes} (other : ¬ bytes <+: rest) :
    (Rule.literal bytes : Rule α).Rejects rest := by
  intro input pos faces
  refine .leaf ?_
  rw [leaf?, faces.drop, if_neg other]

theorem literal_first {b : UInt8}
    (other : ∀ c ∈ rest.head?, ¬ (CharSet.ofBytes [b]).contains c = true) (bytes : Bytes) :
    (Rule.literal (b :: bytes) : Rule α).Rejects rest := by
  refine .literal ?_
  rintro ⟨more, rfl⟩
  exact other b rfl ((CharSet.contains_byte b b).mpr rfl)

/-- A literal does not stand where another one that it is apart from does. -/
theorem literal_apart (apart : ¬ x <+: y ∧ ¬ y <+: x) (rest : Bytes) :
    (Rule.literal x : Rule α).Rejects (y ++ rest) := by
  refine .literal fun here => ?_
  rcases List.prefix_or_prefix_of_prefix here (List.prefix_append y rest) with first | second
  · exact apart.1 first
  · exact apart.2 second

/-- A literal that goes on behind a text stands there only if the rest begins with one of its
bytes. -/
theorem literal_longer {s : CharSet} (longer : ¬ x <+: y) (inside : x.all s.contains = true)
    (other : ∀ c ∈ rest.head?, ¬ s.contains c = true) :
    (Rule.literal x : Rule α).Rejects (y ++ rest) := by
  refine .literal fun here => ?_
  rcases List.prefix_or_prefix_of_prefix here (List.prefix_append y rest) with first | second
  · exact longer first
  · obtain ⟨z, rfl⟩ := second
    cases z with
    | nil => exact longer (by simp)
    | cons c z =>
      obtain ⟨more, split⟩ := (List.prefix_append_right_inj y).mp here
      exact other c (by simp [← split]) (List.all_eq_true.mp inside c (by simp))

theorem set {s : CharSet} (other : ∀ c ∈ rest.head?, ¬ s.contains c = true) :
    (Rule.set s : Rule α).Rejects rest := by
  intro input pos faces
  refine .leaf ?_
  rw [leaf?, faces.head, if_neg]
  intro member
  obtain ⟨c, here, member⟩ := (Option.any_eq_true _ _).mp member
  exact other c here member

/-- Nothing is read where the rule is optional. -/
theorem optional (part : a.Rejects rest) : (Rule.optional a).Reads [] rest :=
  fun input pos faces => .optional (part input pos faces)

theorem many (part : a.Rejects rest) : (Rule.many a).Reads [] rest :=
  fun input pos faces => .manyEnd (part input pos faces) (.inl rfl)

end Rule.Rejects

theorem Rule.Reads.many_set {s : CharSet} (all : ∀ c ∈ x, s.contains c = true)
    (last : ∀ c ∈ rest.head?, ¬ s.contains c = true) :
    (Rule.many (.set s) : Rule α).Reads x rest :=
  .many (fun c _ suffix => .set (all c (suffix.subset (List.mem_cons_self ..))) _)
    (.set last)

theorem Rule.Reads.many1_set {s : CharSet} (filled : x ≠ [])
    (all : ∀ c ∈ x, s.contains c = true) (last : ∀ c ∈ rest.head?, ¬ s.contains c = true) :
    (Rule.many1 (.set s) : Rule α).Reads x rest := by
  obtain ⟨c, z, rfl⟩ := List.exists_cons_of_ne_nil filled
  obtain ⟨here, others⟩ := List.forall_mem_cons.mp all
  intro input pos faces
  have once := Rule.Reads.set (α := α) here (z ++ rest) input pos faces
  have again := Rule.Reads.many_set (α := α) others last input _ (faces.step (x := [c]))
  rw [List.length_cons, Nat.add_comm z.length, ← Nat.add_assoc]
  exact .many1Next once (Nat.succ_ne_self pos) again

end Combinators

section Derivations

variable {rule : Rule α} {source : Source} {stop pos : Nat} {x rest : Bytes}

theorem Rule.Reads.derives (reads : rule.Reads x rest) (plain : rule.unmarked = true)
    (faces : Faces (inputUpTo source stop) pos (x ++ rest)) :
    Derives source stop rule pos (pos + x.length) [] := by
  obtain ⟨f, derives⟩ := (reads _ pos faces).derives faces.inside
  obtain rfl := derives.unmarked plain
  exact derives

/-- An action stands over what its rule matched. -/
theorem Derives.marked {next : Nat} {f : List (Tree α)}
    (derives : Derives source stop rule pos next f)
    (inside : pos ≤ (inputUpTo source stop).length) (act : α) :
    ∃ span : Span, span.source = source ∧ span.start = pos ∧ span.stop = next ∧
      Derives source stop (rule.action act) pos next [.node act span f] := by
  have onward := derives.recognizes.advances inside
  have whole := inputUpTo_length_le source stop
  exact ⟨⟨source, pos, next, onward.1, Nat.le_trans onward.2 whole⟩, rfl, rfl, rfl,
    .action derives rfl rfl rfl⟩

/-- An action over a rule without actions shows what the rule reads. -/
theorem Rule.Reads.marks (reads : rule.Reads x rest) (plain : rule.unmarked = true)
    (faces : Faces (inputUpTo source stop) pos (x ++ rest)) (act : α) :
    ∃ span : Span, span.bytes = x ∧
      Derives source stop (rule.action act) pos (pos + x.length) [.node act span []] := by
  obtain ⟨span, rfl, start, last, derives⟩ :=
    (reads.derives plain faces).marked faces.inside act
  refine ⟨span, ?_, derives⟩
  have further := faces.step.inside
  have held := congrArg (List.take x.length) faces.drop
  simp only [inputUpTo, Array.length_toList, Array.size_extract, Nat.sub_zero] at further
  simp only [inputUpTo, Array.toList_extract, List.extract_eq_take_drop, Nat.sub_zero,
    List.drop_zero, List.drop_take, List.take_take, List.take_left] at held
  have short : min x.length (stop - pos) = x.length := by omega
  rw [short] at held
  simpa [Span.bytes, start, last, Array.toList_extract, List.extract_eq_take_drop] using held

end Derivations

end Backtrack
