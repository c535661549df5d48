import Backtrack.Proofs.Displacement

/-! Rules that see one line. A rule that matches no line feed may stand before one that matches a
line feed last, and then neither looks past it: what such a rule matches on a line is the same
whatever the next lines hold. -/
namespace Backtrack

variable {α : Type}

mutual

/-- The rule matches no line feed and looks past none. -/
def Rule.inline : Rule α → Bool
  | literal bytes => !bytes.contains 0x0A
  | set s => !s.contains 0x0A
  | skipTo _ => false
  | seq a b | choice a b => a.inline && b.inline
  | difference a b => a.inline && b.nearby
  | optional a | many a | many1 a | action a _ | effect a _ => a.inline
  | empty | nothing | endOfInput => true

/-- The rule looks past no line feed, and at most ends with one. -/
def Rule.nearby : Rule α → Bool
  | literal bytes => !bytes.contains 0x0A
  | skipTo _ => false
  | seq a b => a.inline && b.nearby
  | choice a b | difference a b => a.nearby && b.nearby
  | many a | many1 a => a.inline
  | optional a | action a _ | effect a _ => a.nearby
  | empty | nothing | set _ | endOfInput => true

end

/-- What stays inside a line looks past no line feed. -/
theorem Rule.nearby_of_inline {rule : Rule α} (inline : rule.inline = true) :
    rule.nearby = true := by
  induction rule with
  | _ => simp_all [Rule.inline, Rule.nearby]

section Lines

variable {x y z : Bytes} {rule : Rule α} {pos : Nat} {m : Option Nat}

/-- Bytes without a line feed stand before a line feed or not at all. -/
theorem prefix_line_iff {bytes : Bytes} (plain : 0x0A ∉ bytes) (x y : Bytes) :
    bytes <+: x ++ 0x0A :: y ↔ bytes <+: x := by
  refine ⟨fun found => ?_, fun found => found.trans (List.prefix_append ..)⟩
  by_cases short : bytes.length ≤ x.length
  · exact List.prefix_of_prefix_length_le found (List.prefix_append ..) short
  · have line : x ++ [0x0A] <+: x ++ 0x0A :: y := ⟨y, by simp⟩
    have longer : x ++ [0x0A] <+: bytes :=
      List.prefix_of_prefix_length_le line found (by simp; omega)
    exact absurd (longer.subset (by simp)) plain

/-- What a rule without parts matches up to the end of a line. -/
theorem Rule.leaf?_nearby (rule : Rule α) (inside : pos ≤ x.length) (sees : rule.nearby = true) :
    rule.leaf? (x ++ 0x0A :: y) pos = rule.leaf? (x ++ 0x0A :: z) pos := by
  cases rule with
  | literal bytes =>
    have plain : 0x0A ∉ bytes := by simpa [nearby] using sees
    simp only [leaf?, List.drop_append_of_le_length inside, prefix_line_iff plain]
  | set s =>
    have same : (x ++ 0x0A :: y)[pos]? = (x ++ 0x0A :: z)[pos]? := by
      rcases Nat.eq_or_lt_of_le inside with rfl | before
      · simp
      · rw [List.getElem?_append_left before, List.getElem?_append_left before]
    simp only [leaf?, same]
  | endOfInput =>
    have apart (rest : Bytes) : pos ≠ (x ++ 0x0A :: rest).length := by simp; omega
    simp only [leaf?, if_neg (apart y), if_neg (apart z)]
  | skipTo => cases sees
  | _ => rfl

/-- What a rule without parts matches within a line. -/
theorem Rule.leaf?_inline {next : Nat} (inside : pos ≤ x.length) (sees : rule.inline = true)
    (found : rule.leaf? (x ++ 0x0A :: y) pos = some (some next)) : next ≤ x.length := by
  cases rule <;> simp only [leaf?, Option.some.injEq, reduceCtorEq] at found
  case empty => omega
  case literal bytes =>
    have plain : 0x0A ∉ bytes := by simpa [inline] using sees
    simp only [List.drop_append_of_le_length inside, prefix_line_iff plain] at found
    split at found
    next here =>
      have length := here.length_le
      rw [List.length_drop] at length
      cases found
      omega
    next => cases found
  case set s =>
    split at found
    next here =>
      cases found
      refine Nat.lt_of_le_of_ne inside fun last => ?_
      subst last
      simp_all [inline]
    next => cases found
  case endOfInput =>
    split at found
    next last =>
      simp only [List.length_append, List.length_cons] at last
      omega
    next => cases found
  case skipTo => simp [inline] at sees

/-- A rule that stays inside a line ends inside it. -/
theorem Recognizes.within {next : Nat} (h : Recognizes (x ++ 0x0A :: y) rule pos (some next))
    (inside : pos ≤ x.length) (sees : rule.inline = true) : next ≤ x.length := by
  generalize reached : some next = m at h
  induction h generalizing next with
  | leaf found =>
    subst reached
    exact Rule.leaf?_inline inside sees found
  | seqFail | differenceFail => cases reached
  | seq _ _ ih₁ ih₂ =>
    obtain ⟨first, second⟩ := Bool.and_eq_true_iff.mp sees
    exact ih₂ (ih₁ inside first rfl) second reached
  | choiceLeft _ ih => exact ih inside (Bool.and_eq_true_iff.mp sees).1 reached
  | choiceRight _ _ _ ih => exact ih inside (Bool.and_eq_true_iff.mp sees).2 reached
  | difference _ _ ih _ =>
    split at reached <;> cases reached
    exact ih inside (Bool.and_eq_true_iff.mp sees).1 rfl
  | @optional _ pos m _ ih =>
    cases reached
    cases m with
    | none => exact inside
    | some next => exact ih inside sees rfl
  | manyEnd =>
    cases reached
    exact inside
  | manyNext _ _ _ ih₁ ih₂ | many1Next _ _ _ ih₁ ih₂ =>
    exact ih₂ (ih₁ inside sees rfl) sees reached
  | many1End _ _ ih | action _ ih | effect _ ih => exact ih inside sees reached

/-- What stands on the next lines does not matter to a rule that sees one line. -/
theorem Recognizes.near (h : Recognizes (x ++ 0x0A :: y) rule pos m) (inside : pos ≤ x.length)
    (sees : rule.nearby = true) : Recognizes (x ++ 0x0A :: z) rule pos m := by
  induction h with
  | @leaf rule _ _ found => exact .leaf (by rw [← found, Rule.leaf?_nearby rule inside sees])
  | seqFail _ ih =>
    exact .seqFail (ih inside (Rule.nearby_of_inline (Bool.and_eq_true_iff.mp sees).1))
  | seq first _ ih₁ ih₂ =>
    obtain ⟨stays, second⟩ := Bool.and_eq_true_iff.mp sees
    exact .seq (ih₁ inside (Rule.nearby_of_inline stays))
      (ih₂ (first.within inside stays) second)
  | choiceLeft _ ih => exact .choiceLeft (ih inside (Bool.and_eq_true_iff.mp sees).1)
  | choiceRight _ _ ih₁ ih₂ =>
    obtain ⟨left, right⟩ := Bool.and_eq_true_iff.mp sees
    exact .choiceRight (ih₁ inside left) (ih₂ inside right)
  | differenceFail _ ih => exact .differenceFail (ih inside (Bool.and_eq_true_iff.mp sees).1)
  | difference _ _ ih₁ ih₂ =>
    obtain ⟨keep, excluded⟩ := Bool.and_eq_true_iff.mp sees
    exact .difference (ih₁ inside keep) (ih₂ inside excluded)
  | optional _ ih => exact .optional (ih inside sees)
  | manyEnd _ last ih => exact .manyEnd (ih inside (Rule.nearby_of_inline sees)) last
  | manyNext first apart _ ih₁ ih₂ =>
    exact .manyNext (ih₁ inside (Rule.nearby_of_inline sees)) apart
      (ih₂ (first.within inside sees) sees)
  | many1End _ last ih => exact .many1End (ih inside (Rule.nearby_of_inline sees)) last
  | many1Next first apart _ ih₁ ih₂ =>
    exact .many1Next (ih₁ inside (Rule.nearby_of_inline sees)) apart
      (ih₂ (first.within inside sees) sees)
  | action _ ih => exact .action (ih inside sees)
  | effect _ ih => exact .effect (ih inside sees)

/-- Repetitions end where the rule matches no more. -/
theorem Recognizes.many_stops {input : Bytes} {mid : Nat}
    (h : Recognizes input (.many rule) pos (some mid)) :
    ∃ m, Recognizes input rule mid m ∧ (m = none ∨ m = some mid) := by
  generalize repeated : Rule.many rule = whole at h
  generalize reached : some mid = m at h
  induction h with
  | manyEnd last ends =>
    cases repeated
    cases reached
    exact ⟨_, last, ends⟩
  | manyNext _ _ _ _ ih => exact ih repeated reached
  | leaf found =>
    subst repeated
    simp [Rule.leaf?] at found
  | _ => cases repeated

/-- Repetitions up to the end of a line come first in those that go on behind it. -/
theorem Recognizes.near_many {mid : Nat}
    (h : Recognizes (x ++ 0x0A :: y) (.many rule) pos (some mid)) (sees : rule.nearby = true)
    (started : pos ≤ x.length + 1) (inside : mid ≤ x.length + 1)
    (rest : Recognizes (x ++ 0x0A :: z) (.many rule) mid m) :
    Recognizes (x ++ 0x0A :: z) (.many rule) pos m := by
  generalize repeated : Rule.many rule = whole at h
  generalize reached : some mid = ended at h
  generalize text : x ++ 0x0A :: y = input at h
  have long : x.length + 1 ≤ input.length := by simp [← text]
  induction h with
  | manyEnd =>
    cases repeated
    cases reached
    exact rest
  | @manyNext _ pos next _ first apart behind _ ih =>
    cases repeated
    subst reached
    have onward := first.advances (Nat.le_trans started long)
    have further := behind.advances onward.2
    have within : pos ≤ x.length := by omega
    subst text
    exact .manyNext (first.near within sees) apart (ih (by omega) rfl rfl)
  | leaf found =>
    subst repeated
    simp [Rule.leaf?] at found
  | _ => cases repeated

end Lines

section Sources

variable {source source' : Source} {stop stop' : Nat} {x y z : Bytes} {rule : Rule α}
  {pos next : Nat} {f : List (Tree α)}

/-- A derivation of such a rule is one in every source that begins with the same lines. -/
theorem Derives.near (h : Derives source stop rule pos next f)
    (here : inputUpTo source stop = x ++ 0x0A :: y)
    (there : inputUpTo source' stop' = x ++ 0x0A :: z) (inside : pos ≤ x.length)
    (sees : rule.nearby = true) :
    Derives source' stop' rule pos next (f.map (Tree.displace source' 0)) := by
  have near {a : Rule α} {pos : Nat} {m : Option Nat}
      (h : Recognizes (inputUpTo source stop) a pos m) (inside : pos ≤ x.length)
      (sees : a.nearby = true) : Recognizes (inputUpTo source' stop') a pos m :=
    there ▸ (here ▸ h).near inside sees
  have within {a : Rule α} {pos next : Nat} {g : List (Tree α)}
      (h : Derives source stop a pos next g) (inside : pos ≤ x.length) (sees : a.inline = true) :
      next ≤ x.length := (here ▸ h.recognizes).within inside sees
  induction h with
  | leaf found =>
    rw [here] at found
    exact .leaf (by rw [there, ← found, Rule.leaf?_nearby _ inside sees])
  | seq first _ ih₁ ih₂ =>
    obtain ⟨stays, second⟩ := Bool.and_eq_true_iff.mp sees
    rw [List.map_append]
    exact .seq (ih₁ inside (Rule.nearby_of_inline stays)) (ih₂ (within first inside stays) second)
  | choiceLeft _ ih => exact .choiceLeft (ih inside (Bool.and_eq_true_iff.mp sees).1)
  | choiceRight failed _ ih =>
    obtain ⟨left, right⟩ := Bool.and_eq_true_iff.mp sees
    exact .choiceRight (near failed inside left) (ih inside right)
  | difference _ excluded short ih =>
    obtain ⟨keep, other⟩ := Bool.and_eq_true_iff.mp sees
    exact .difference (ih inside keep) (near excluded inside other) short
  | optional _ ih => exact .optional (ih inside sees)
  | optionalFail failed => exact .optionalFail (near failed inside sees)
  | manyFail failed => exact .manyFail (near failed inside (Rule.nearby_of_inline sees))
  | manyEmpty _ ih => exact .manyEmpty (ih inside (Rule.nearby_of_inline sees))
  | manyNext first apart _ ih₁ ih₂ =>
    rw [List.map_append]
    exact .manyNext (ih₁ inside (Rule.nearby_of_inline sees)) apart
      (ih₂ (within first inside sees) sees)
  | many1Empty _ ih => exact .many1Empty (ih inside (Rule.nearby_of_inline sees))
  | many1Next first apart _ ih₁ ih₂ =>
    rw [List.map_append]
    exact .many1Next (ih₁ inside (Rule.nearby_of_inline sees)) apart
      (ih₂ (within first inside sees) sees)
  | @action _ _ _ next _ span _ _ atStart atStop ih =>
    have part := ih inside sees
    have length : (inputUpTo source' stop').length = x.length + (z.length + 1) := by simp [there]
    have short := (part.recognizes.advances (by omega)).2
    have held : 0 + span.stop ≤ source'.size := by
      have whole := inputUpTo_length_le source' stop'
      omega
    simp only [List.map_cons, List.map_nil, Tree.displace]
    refine .action part rfl ?_ ?_
    · rw [Span.displace_start held, Nat.zero_add, atStart]
    · rw [Span.displace_stop held, Nat.zero_add, atStop]
  | effect _ ih => exact .effect (ih inside sees)

end Sources
end Backtrack
