import Backtrack.Proofs.Defects
import Backtrack.Proofs.Legible

/-! What clean matches spell. A rule spells what a printer prints when every match of it that leaves
no defect is over a printed text. Alternatives that only recover spell nothing, as they leave a
defect wherever they match. -/
namespace Backtrack

variable {α δ ε : Type}

/-- A text that the rule matches without a defect is the print of something. -/
def Rule.Spells (isDefect : α → Bool) (rule : Rule α) (print : δ → Bytes) : Prop :=
  ∀ (source : Source) (stop pos next : Nat) (f : List (Tree α)),
    pos ≤ (inputUpTo source stop).length → Derives source stop rule pos next f →
    Tree.defects isDefect f = 0 → ∃ d, stretch (inputUpTo source stop) pos next = print d

namespace Rule.Spells

variable {isDefect : α → Bool} {a b : Rule α} {print : δ → Bytes} {print' : ε → Bytes}

theorem map (h : a.Spells isDefect print) (f : δ → ε) (same : ∀ d, print d = print' (f d)) :
    a.Spells isDefect print' := by
  intro source stop pos next trees inside derives clean
  obtain ⟨d, text⟩ := h source stop pos next trees inside derives clean
  exact ⟨f d, text.trans (same d)⟩

theorem literal (bytes : Bytes) :
    (Rule.literal bytes : Rule α).Spells isDefect fun _ : Unit => bytes := by
  intro source stop pos next trees inside derives clean
  refine ⟨(), ?_⟩
  cases derives with
  | leaf found =>
    simp only [leaf?, Option.some.injEq] at found
    split at found
    next here =>
      cases found
      obtain ⟨rest, same⟩ := here
      rw [stretch, List.drop_take, Nat.add_sub_cancel_left, ← same, List.take_left]
    next => cases found

theorem set (s : CharSet) : (Rule.set s : Rule α).Spells isDefect
    fun c : { c // s.contains c = true } => [c.1] := by
  intro source stop pos next trees inside derives clean
  obtain ⟨c, here, member, rfl⟩ := derives.recognizes.byte_of_set
  exact ⟨⟨c, member⟩, stretch_succ here⟩

theorem byte (b : UInt8) : (Rule.byte b : Rule α).Spells isDefect fun _ : Unit => [b] :=
  (set _).map (fun _ => ()) fun ⟨_, member⟩ =>
    congrArg ([·]) ((CharSet.contains_byte _ _).mp member)

theorem empty : (Rule.empty : Rule α).Spells isDefect fun _ : Unit => [] := by
  intro source stop pos next trees inside derives clean
  cases derives with
  | leaf found =>
    cases found
    exact ⟨(), stretch_self _ _⟩

theorem seq (first : a.Spells isDefect print) (second : b.Spells isDefect print') :
    (a ++ b).Spells isDefect fun parts : δ × ε => print parts.1 ++ print' parts.2 := by
  intro source stop pos next trees inside derives clean
  obtain ⟨_, _, _, here, behind, rfl⟩ := Derives.seq_iff.mp derives
  rw [Tree.defects_append, Nat.add_eq_zero_iff] at clean
  have onward := here.recognizes.advances inside
  have further := behind.recognizes.advances onward.2
  obtain ⟨d, text⟩ := first _ _ _ _ _ inside here clean.1
  obtain ⟨e, text'⟩ := second _ _ _ _ _ onward.2 behind clean.2
  exact ⟨(d, e), by rw [← stretch_append onward.1 further.1, text, text']⟩

theorem choice (left : a.Spells isDefect print) (right : b.Spells isDefect print) :
    (a ||| b).Spells isDefect print := by
  intro source stop pos next trees inside derives clean
  rcases Derives.choice_iff.mp derives with here | ⟨-, here⟩
  · exact left _ _ _ _ _ inside here clean
  · exact right _ _ _ _ _ inside here clean

theorem foldl_choice {rules : List (Rule α)} (start : a.Spells isDefect print)
    (each : ∀ rule ∈ rules, rule.Spells isDefect print) :
    (rules.foldl Rule.choice a).Spells isDefect print := by
  induction rules generalizing a with
  | nil => exact start
  | cons rule rules ih =>
    obtain ⟨here, others⟩ := List.forall_mem_cons.mp each
    exact ih (start.choice here) others

theorem firstOf {rules : List (Rule α)} (each : ∀ rule ∈ rules, rule.Spells isDefect print) :
    (Rule.firstOf rules).Spells isDefect print := by
  cases rules with
  | nil =>
    intro source stop pos next trees inside derives clean
    cases derives with
    | leaf found => cases found
  | cons rule rules =>
    obtain ⟨here, others⟩ := List.forall_mem_cons.mp each
    exact here.foldl_choice others

theorem optional (h : a.Spells isDefect print) (nothing : ∃ d, print d = []) :
    (Rule.optional a).Spells isDefect print := by
  intro source stop pos next trees inside derives clean
  obtain here | ⟨-, rfl, rfl⟩ := Derives.optional_iff.mp derives
  · exact h _ _ _ _ _ inside here clean
  · obtain ⟨d, same⟩ := nothing
    exact ⟨d, (stretch_self _ _).trans same.symm⟩

theorem many (h : a.Spells isDefect print) :
    (Rule.many a).Spells isDefect fun parts : List δ => parts.flatMap print := by
  intro source stop pos next trees inside derives clean
  generalize repeated : Rule.many a = rule at derives
  induction derives with
  | manyFail => exact ⟨[], stretch_self _ _⟩
  | manyEmpty here =>
    cases repeated
    obtain ⟨d, text⟩ := h _ _ _ _ _ inside here clean
    exact ⟨[d], by simpa using text⟩
  | manyNext here _ behind _ ih =>
    cases repeated
    rw [Tree.defects_append, Nat.add_eq_zero_iff] at clean
    have onward := here.recognizes.advances inside
    have further := behind.recognizes.advances onward.2
    obtain ⟨d, text⟩ := h _ _ _ _ _ inside here clean.1
    obtain ⟨parts, text'⟩ := ih onward.2 clean.2 rfl
    refine ⟨d :: parts, ?_⟩
    rw [← stretch_append onward.1 further.1, text, text']
    exact List.flatMap_cons.symm
  | leaf found =>
    subst repeated
    simp [leaf?] at found
  | _ => cases repeated

theorem many1 (h : a.Spells isDefect print) : (Rule.many1 a).Spells isDefect
    fun parts : δ × List δ => print parts.1 ++ parts.2.flatMap print := by
  intro source stop pos next trees inside derives clean
  cases derives with
  | leaf found => simp [leaf?] at found
  | many1Empty here =>
    obtain ⟨d, text⟩ := h _ _ _ _ _ inside here clean
    exact ⟨(d, []), by simpa using text⟩
  | many1Next here _ rest =>
    rw [Tree.defects_append, Nat.add_eq_zero_iff] at clean
    have onward := here.recognizes.advances inside
    have further := rest.recognizes.advances onward.2
    obtain ⟨d, text⟩ := h _ _ _ _ _ inside here clean.1
    obtain ⟨parts, text'⟩ := h.many _ _ _ _ _ onward.2 rest clean.2
    exact ⟨(d, parts), by rw [← stretch_append onward.1 further.1, text, text']⟩

theorem effect (h : a.Spells isDefect print) (e : Effect) :
    (a.effect e).Spells isDefect print := by
  intro source stop pos next trees inside derives clean
  exact h _ _ _ _ _ inside (Derives.effect_iff.mp derives) clean

theorem action (h : a.Spells isDefect print) (act : α) :
    (a.action act).Spells isDefect print := by
  intro source stop pos next trees inside derives clean
  obtain ⟨_, _, here, -, -, -, rfl⟩ := Derives.action_iff.mp derives
  rw [Tree.defects_node, Nat.add_eq_zero_iff] at clean
  exact h _ _ _ _ _ inside here clean.1

/-- A match that leaves a defect spells anything. -/
theorem defect {act : α} (bad : isDefect act = true) (a : Rule α) (print : δ → Bytes) :
    (a.action act).Spells isDefect print := by
  intro source stop pos next trees inside derives clean
  obtain ⟨_, _, -, -, -, -, rfl⟩ := Derives.action_iff.mp derives
  simp [Tree.defects_node, bad] at clean

end Rule.Spells
end Backtrack
