import Backtrack.Proofs.Tracking

/-! Choices among many alternatives. A choice nested to the left tries its alternatives in their
order, as a list of them is tried. Two scribes may have the list in another order, where the
alternatives that change places begin apart: at most one of the two gets anywhere, and the other
leaves everything as it was. -/
namespace Backtrack

open Outlook (Allows)

variable {σ α : Type}

/-- The alternatives are tried up to the first that does not fail. -/
inductive Tries (subject : Subject σ) (pos : Nat) :
    List (Rule α) → Matching σ α → List (Performance σ) → Verdict σ α → Prop where
  | nil {s} : Tries subject pos [] s [] (.ok none s)
  | taken {a rules s t r} : Evaluates subject .attempt a false pos s t r →
      (∀ s₁, r ≠ .ok none s₁) → Tries subject pos (a :: rules) s t r
  | failed {a rules s t s₁ u r} : Evaluates subject .attempt a false pos s t (.ok none s₁) →
      Tries subject pos rules s₁ u r → Tries subject pos (a :: rules) s (t ++ u) r

/-- Nothing stands higher than before. -/
structure Matching.Beneath (s s₁ : Matching σ α) : Prop where
  events : s₁.events.size ≤ s.events.size
  pending : s₁.diagnostics.pending.stack.size ≤ s.diagnostics.pending.stack.size
  crumbs : s₁.diagnostics.crumbs.depth ≤ s.diagnostics.crumbs.depth

namespace Matching

variable {s s₁ s₂ : Matching σ α} {pos : Nat} {r : Verdict σ α}

theorem Beneath.refl (s : Matching σ α) : s.Beneath s :=
  ⟨Nat.le_refl _, Nat.le_refl _, Nat.le_refl _⟩

theorem Beneath.trans (h : s.Beneath s₁) (h₁ : s₁.Beneath s₂) : s.Beneath s₂ :=
  ⟨Nat.le_trans h₁.events h.events, Nat.le_trans h₁.pending h.pending,
    Nat.le_trans h₁.crumbs h.crumbs⟩

/-- What does not stand higher is not taken back again. -/
theorem Beneath.close (h : s.Beneath s₁) (pos : Nat) : s.close pos (.ok none s₁) = .ok none s₁ := by
  have events : s₁.events.shrink s.events.size = s₁.events := by
    simp [Array.shrink_eq_take, Array.extract_eq_self_of_le h.events]
  have crumbs : s₁.diagnostics.crumbs.truncate s.diagnostics.crumbs.depth =
      s₁.diagnostics.crumbs := by
    have depth := h.crumbs
    simp only [Breadcrumbs.depth] at depth
    simp [Breadcrumbs.truncate, Breadcrumbs.depth, Array.shrink_eq_take,
      Array.extract_eq_self_of_le depth]
  have pending : s₁.diagnostics.pending.abandonFrom s.diagnostics.pending.stack.size pos =
      s₁.diagnostics.pending := if_pos h.pending
  simp only [Matching.close, Diagnostics.rewind, Diagnostics.mark, events, crumbs, pending]

theorem beneath_of_close (failed : s.close pos r = .ok none s₁) : s.Beneath s₁ := by
  rcases r with ⟨_ | next, s₀⟩ | ⟨stop, s₀⟩ <;> cases failed
  refine ⟨?_, ?_, ?_⟩
  · exact Nat.le_trans (Nat.le_of_eq Array.size_shrink) (Nat.min_le_left ..)
  · exact Nat.le_trans (Nat.le_of_eq (Pending.depth_abandonFrom ..)) (Nat.min_le_left ..)
  · exact Nat.le_trans (Nat.le_of_eq Array.size_shrink) (Nat.min_le_left ..)

/-- An attempt that has ended ends there. -/
theorem close_close (s : Matching σ α) (pos : Nat) (r : Verdict σ α) :
    s.close pos (s.close pos r) = s.close pos r := by
  rcases r with ⟨_ | next, s₀⟩ | ⟨stop, s₀⟩
  · have closed : s.close pos (.ok none s₀) = .ok none _ := rfl
    exact (beneath_of_close closed).close pos
  · simp [Matching.close, Diagnostics.settle, Diagnostics.mark, Array.shrink_eq_take]
  · rfl

end Matching

section Lists

variable {subject : Subject σ} {rules more : List (Rule α)} {pos : Nat}
  {s s₁ : Matching σ α} {t u : List (Performance σ)} {r : Verdict σ α}

theorem Evaluates.beneath {rule : Rule α} {silent : Bool}
    (h : Evaluates subject .attempt rule silent pos s t (.ok none s₁)) : s.Beneath s₁ := by
  generalize failed : (EStateM.Result.ok none s₁ : Verdict σ α) = r at h
  cases h with
  | close h => exact Matching.beneath_of_close failed.symm

namespace Tries

theorem beneath (h : Tries subject pos rules s t (.ok none s₁)) : s.Beneath s₁ := by
  generalize failed : (EStateM.Result.ok none s₁ : Verdict σ α) = r at h
  induction h with
  | nil =>
    cases failed
    exact .refl _
  | taken _ ends => exact absurd failed.symm (ends s₁)
  | failed first _ ih => exact first.beneath.trans (ih failed)

theorem append_taken (h : Tries subject pos rules s t r) (ends : ∀ s₁, r ≠ .ok none s₁) :
    Tries subject pos (rules ++ more) s t r := by
  induction h with
  | nil => exact absurd rfl (ends _)
  | taken first _ => exact .taken first ends
  | failed first _ ih => exact .failed first (ih ends)

theorem append_failed (h : Tries subject pos rules s t (.ok none s₁))
    (rest : Tries subject pos more s₁ u r) : Tries subject pos (rules ++ more) s (t ++ u) r := by
  generalize failed : (EStateM.Result.ok none s₁ : Verdict σ α) = r₁ at h
  induction h with
  | nil =>
    cases failed
    exact rest
  | taken _ ends => exact absurd failed.symm (ends s₁)
  | failed first _ ih =>
    rw [List.cons_append, List.append_assoc]
    exact .failed first (ih failed)

/-- The first of the alternatives settle the matter, or all of them fail. -/
theorem append_cases (h : Tries subject pos (rules ++ more) s t r) :
    (Tries subject pos rules s t r ∧ ∀ s₁, r ≠ .ok none s₁) ∨
    ∃ u s₁ v, Tries subject pos rules s u (.ok none s₁) ∧ Tries subject pos more s₁ v r := by
  induction rules generalizing s t with
  | nil => exact .inr ⟨[], s, t, .nil, h⟩
  | cons a rules ih =>
    cases h with
    | taken first ends => exact .inl ⟨.taken first ends, ends⟩
    | failed first rest =>
      obtain ⟨tries, ends⟩ | ⟨u, s₁, v, failed, tries⟩ := ih rest
      · exact .inl ⟨.failed first tries, ends⟩
      · exact .inr ⟨_, s₁, v, .failed first failed, tries⟩

theorem singleton {rule : Rule α} (h : Evaluates subject .attempt rule false pos s t r) :
    Tries subject pos [rule] s t r := by
  rcases r with ⟨_ | next, s₁⟩ | ⟨stop, s₁⟩
  · have tries := Tries.failed h .nil
    rwa [List.append_nil] at tries
  · exact .taken h nofun
  · exact .taken h nofun

/-- Trying the alternatives has one result. -/
theorem unique (bounded : subject.Bounded) (inside : pos ≤ subject.stop)
    (h : Tries subject pos rules s t r) {r' : Verdict σ α} (h' : Tries subject pos rules s u r') :
    r = r' := by
  induction h generalizing u with
  | nil =>
    cases h'
    rfl
  | taken first ends =>
    have here := first.verdict_eq bounded inside
    cases h' with
    | taken first' => exact here.symm.trans (first'.verdict_eq bounded inside)
    | failed first' =>
      exact absurd (here.symm.trans (first'.verdict_eq bounded inside)) (ends _)
  | failed first _ ih =>
    have here := first.verdict_eq bounded inside
    cases h' with
    | taken first' ends =>
      exact absurd ((first'.verdict_eq bounded inside).symm.trans here) (ends _)
    | failed first' rest =>
      cases here.symm.trans (first'.verdict_eq bounded inside)
      exact ih rest

end Tries

theorem Rule.firstOf_concat (a : Rule α) (rules : List (Rule α)) (c : Rule α) :
    firstOf (a :: (rules ++ [c])) = .choice (firstOf (a :: rules)) c := by
  simp [firstOf]

/-- A choice tries its alternatives in their order. -/
theorem Evaluates.tries {a : Rule α}
    (h : Evaluates subject .attempt (.firstOf (a :: rules)) false pos s t r) :
    ∃ r₀, Tries subject pos (a :: rules) s t r₀ ∧ r = s.close pos r₀ := by
  induction rules using List.reverseRecOn generalizing t r with
  | nil =>
    refine ⟨r, .singleton h, ?_⟩
    cases h with
    | close => exact (Matching.close_close ..).symm
  | append_singleton rules c ih =>
    rw [Rule.firstOf_concat] at h
    cases h with
    | close h =>
      cases h with
      | leaf found => simp [Rule.leaf?] at found
      | choiceEnd left ends =>
        obtain ⟨r₀, tries, rfl⟩ := ih left
        refine ⟨r₀, tries.append_taken ?_, Matching.close_close ..⟩
        rintro s₁ rfl
        exact ends _ rfl
      | @choiceNext _ _ _ _ _ _ s₁ _ _ left right =>
        obtain ⟨r₀, tries, closed⟩ := ih left
        obtain ⟨s₀, rfl⟩ : ∃ s₀, r₀ = .ok none s₀ := by
          rcases r₀ with ⟨_ | next, s₀⟩ | ⟨stop, s₀⟩ <;> cases closed
          exact ⟨s₀, rfl⟩
        rw [tries.beneath.close] at closed
        cases closed
        exact ⟨_, tries.append_failed (.singleton right), rfl⟩

theorem Tries.evaluates (bounded : subject.Bounded) (inside : pos ≤ subject.stop) {a : Rule α}
    (h : Tries subject pos (a :: rules) s t r) :
    ∃ t', Evaluates subject .attempt (.firstOf (a :: rules)) false pos s t' (s.close pos r) := by
  obtain ⟨t', whole⟩ := (Rule.firstOf (a :: rules)).evaluates bounded false pos s inside
  obtain ⟨r₀, tries, closed⟩ := whole.tries
  obtain rfl := h.unique bounded inside tries
  rw [closed] at whole
  exact ⟨t', whole⟩

/-- What a choice needs is enough for each of its alternatives. -/
theorem Rule.draw?_firstOf {of : Effect → Draw} {a : Rule α} {whole : Draw}
    (known : (firstOf (a :: rules)).draw? of = some whole) :
    ∀ b ∈ a :: rules, ∃ d, b.draw? of = some d ∧ d.need ≤ whole.need := by
  induction rules using List.reverseRecOn generalizing whole with
  | nil => exact List.forall_mem_singleton.mpr ⟨whole, known, Nat.le_refl _⟩
  | append_singleton rules c ih =>
    rw [firstOf_concat] at known
    obtain ⟨⟨d, left, less, -⟩, e, right, less', -⟩ := draw?_choice known
    rw [← List.cons_append]
    refine List.forall_mem_append.mpr ⟨fun b member => ?_,
      List.forall_mem_singleton.mpr ⟨e, right, less'⟩⟩
    obtain ⟨d', known', less''⟩ := ih left b member
    exact ⟨d', known', Nat.le_trans less'' less⟩

end Lists

section Orders

variable {subject subject' : Subject (List Notice)} {turn : α → α} {low low' : List Entry}
  {rules rules' : List (Rule α)} {pos : Nat} {s s' : Matching (List Notice) α}
  {t : List (Performance (List Notice))} {r : Verdict (List Notice) α}

/-- The stack is high enough for the rule above the floor. -/
def Rule.Afforded (low : List Entry) (s : Matching (List Notice) α) (rule : Rule α) : Prop :=
  ∃ draw, rule.draw? Stack.pending.draw = some draw ∧
    low.length + draw.need ≤ s.diagnostics.pending.depth

theorem Rule.Afforded.behind {a b : Rule α} {s₁ : Matching (List Notice) α}
    (own : a.Afforded low s) (enough : b.Afforded low s)
    (h : Evaluates subject .attempt a false pos s t (.ok none s₁)) : b.Afforded low s₁ := by
  obtain ⟨d, known, within⟩ := own
  obtain ⟨e, known', within'⟩ := enough
  have restored : s₁.diagnostics.pending.depth = s.diagnostics.pending.depth :=
    (h.drawn known (by simp only [Stack.depth]; omega)).1
  exact ⟨e, known', restored ▸ within'⟩

theorem Rule.Afforded.behind_all {b : Rule α} {s₁ : Matching (List Notice) α}
    (own : ∀ a ∈ rules, a.Afforded low s) (enough : b.Afforded low s)
    (h : Tries subject pos rules s t (.ok none s₁)) : b.Afforded low s₁ := by
  generalize failed : (EStateM.Result.ok none s₁ : Verdict (List Notice) α) = r at h
  induction h with
  | nil =>
    cases failed
    exact enough
  | taken _ ends => exact absurd failed.symm (ends s₁)
  | failed h _ ih =>
    obtain ⟨first, others⟩ := List.forall_mem_cons.mp own
    exact ih (fun a member => first.behind (others a member) h) (first.behind enough h) failed

theorem Tracks.followed {a a' : Rule α} (part : Tracks subject subject' turn .attempt a a')
    (own : a.Afforded low s) (inside : pos ≤ subject.stop) (facing : s.Facing turn low low' s')
    (h : Evaluates subject .attempt a false pos s t r) :
    ∃ t' r', Evaluates subject' .attempt a' false pos s' t' r' ∧ Judged turn low low' r r' := by
  obtain ⟨draw, known, enough⟩ := own
  exact part known inside facing enough h

/-- What tracks a rule that begins with another byte fails, and all stays as it was. -/
theorem Tracks.idle (faces : subject.Faces subject') {a a' : Rule α}
    (part : Tracks subject subject' turn .attempt a a') (own : a.Afforded low s)
    (inside : pos ≤ subject.stop) (facing : s.Facing turn low low' s')
    (closed : ¬ Allows a.opening? subject.input[pos]?) :
    ∃ t' s₁', Evaluates subject' .attempt a' false pos s' t' (.ok none s₁') ∧
      s.Facing turn low low' s₁' := by
  obtain ⟨t, h⟩ := a.evaluates faces.bounded false pos s inside
  have still : a.run subject false pos s = .ok none s := (h.unopened closed).2
  rw [still] at h
  obtain ⟨t', _, h', judged⟩ := part.followed own inside facing h
  obtain ⟨s₁', rfl, facing₁⟩ := judged.finished
  exact ⟨t', s₁', h', facing₁⟩

/-- Whoever tries the one list of alternatives in its subject gets as far as the other does with the
other list. -/
def Alternatives (subject subject' : Subject (List Notice)) (turn : α → α)
    (rules rules' : List (Rule α)) : Prop :=
  ∀ ⦃low low' pos s s' t r⦄, (∀ a ∈ rules, a.Afforded low s) → pos ≤ subject.stop →
    s.Facing turn low low' s' → Tries subject pos rules s t r →
    ∃ t' r', Tries subject' pos rules' s' t' r' ∧ Judged turn low low' r r'

namespace Alternatives

variable {a a' b b' : Rule α} {more more' : List (Rule α)}

theorem nil : Alternatives subject subject' turn [] [] := by
  intro low low' pos s s' t r _ _ facing tries
  cases tries
  exact ⟨[], _, .nil, .ok facing⟩

theorem append (front : Alternatives subject subject' turn rules rules')
    (rest : Alternatives subject subject' turn more more') :
    Alternatives subject subject' turn (rules ++ more) (rules' ++ more') := by
  intro low low' pos s s' t r own inside facing tries
  obtain ⟨first, others⟩ := List.forall_mem_append.mp own
  obtain ⟨tries, ends⟩ | ⟨u, s₁, v, failed, tries⟩ := tries.append_cases
  · obtain ⟨t', r', tries', judged⟩ := front first inside facing tries
    exact ⟨t', r', tries'.append_taken (judged.unmatched ends), judged⟩
  · obtain ⟨t', _, failed', judged⟩ := front first inside facing failed
    obtain ⟨s₁', rfl, facing₁⟩ := judged.finished
    have own (c : Rule α) (member : c ∈ more) : c.Afforded low s₁ :=
      .behind_all first (others c member) failed
    obtain ⟨u', r', tries', judged⟩ := rest own inside facing₁ tries
    exact ⟨_, r', failed'.append_failed tries', judged⟩

theorem singleton (part : Tracks subject subject' turn .attempt a a') :
    Alternatives subject subject' turn [a] [a'] := by
  intro low low' pos s s' t r own inside facing tries
  have own := List.forall_mem_singleton.mp own
  cases tries with
  | taken h =>
    obtain ⟨t', r', h', judged⟩ := part.followed own inside facing h
    exact ⟨_, r', .singleton h', judged⟩
  | failed h tries =>
    cases tries
    obtain ⟨t', r', h', judged⟩ := part.followed own inside facing h
    exact ⟨_, r', .singleton h', judged⟩

/-- Alternatives that begin apart may change places. -/
theorem crossed (faces : subject.Faces subject')
    (partA : Tracks subject subject' turn .attempt a a')
    (partB : Tracks subject subject' turn .attempt b b')
    (apart : Outlook.apart a.opening? b.opening? = true) :
    Alternatives subject subject' turn [a, b] [b', a'] := by
  intro low low' pos s s' t r own inside facing tries
  obtain ⟨ownA, own⟩ := List.forall_mem_cons.mp own
  have ownB := List.forall_mem_singleton.mp own
  have closes (opened : Allows a.opening? subject.input[pos]?) :
      ¬ Allows b.opening? subject.input[pos]? := Outlook.not_allows_of_apart apart opened
  cases tries with
  | taken h ends =>
    have opened : Allows a.opening? subject.input[pos]? := by
      by_contra closed
      exact ends _ (h.unopened closed).2
    obtain ⟨t', s₁', idle, facing₁⟩ := partB.idle faces ownB inside facing (closes opened)
    obtain ⟨u', r', h', judged⟩ := partA.followed ownA inside facing₁ h
    exact ⟨_, r', .failed idle (.singleton h'), judged⟩
  | failed h tries =>
    by_cases opened : Allows a.opening? subject.input[pos]?
    · -- `b` leaves everything as it was, in its place and in the other
      obtain ⟨t', s₁', idle, facing₁⟩ := partB.idle faces ownB inside facing (closes opened)
      obtain ⟨u', r', h', judged⟩ := partA.followed ownA inside facing₁ h
      cases tries with
      | taken hb ends => exact absurd (hb.unopened (closes opened)).2 (ends _)
      | failed hb tries =>
        cases tries
        cases (hb.unopened (closes opened)).2
        exact ⟨_, r', .failed idle (.singleton h'), judged⟩
    · cases (h.unopened opened).2
      cases tries with
      | taken hb ends =>
        obtain ⟨t', r', hb', judged⟩ := partB.followed ownB inside facing hb
        exact ⟨t', r', .taken hb' (judged.unmatched ends), judged⟩
      | failed hb tries =>
        cases tries
        obtain ⟨t', _, hb', judged⟩ := partB.followed ownB inside facing hb
        obtain ⟨s₁', rfl, facing₁⟩ := judged.finished
        obtain ⟨u', s₂', idle, facing₂⟩ :=
          partA.idle faces (ownB.behind ownA hb) inside facing₁ opened
        exact ⟨_, _, .failed hb' (.singleton idle), .ok facing₂⟩

theorem cons (part : Tracks subject subject' turn .attempt a a')
    (rest : Alternatives subject subject' turn rules rules') :
    Alternatives subject subject' turn (a :: rules) (a' :: rules') :=
  (singleton part).append rest

theorem swap (faces : subject.Faces subject')
    (partA : Tracks subject subject' turn .attempt a a')
    (partB : Tracks subject subject' turn .attempt b b')
    (apart : Outlook.apart a.opening? b.opening? = true)
    (rest : Alternatives subject subject' turn rules rules') :
    Alternatives subject subject' turn (a :: b :: rules) (b' :: a' :: rules') :=
  (crossed faces partA partB apart).append rest

end Alternatives

/-- Choices among such alternatives keep in step. -/
theorem Tracks.firstOf (faces : subject.Faces subject') {a a' : Rule α}
    (both : Alternatives subject subject' turn (a :: rules) (a' :: rules')) :
    Tracks subject subject' turn .attempt (.firstOf (a :: rules)) (.firstOf (a' :: rules')) := by
  intro draw low low' pos s s' t r known inside facing enough h
  have own : ∀ b ∈ a :: rules, b.Afforded low s := by
    intro b member
    obtain ⟨d, known, less⟩ := Rule.draw?_firstOf known b member
    exact ⟨d, known, by omega⟩
  obtain ⟨r₀, tries, rfl⟩ := h.tries
  obtain ⟨t', r', tries', judged⟩ := both own inside facing tries
  obtain ⟨u', h'⟩ := tries'.evaluates faces.bounded' (faces.stop ▸ inside)
  exact ⟨u', _, h', judged.close facing (Nat.le_refl _) pos⟩

theorem Tracks.choice (faces : subject.Faces subject') {a a' b b' : Rule α}
    (left : Tracks subject subject' turn .attempt a a')
    (right : Tracks subject subject' turn .attempt b b') :
    Tracks subject subject' turn .attempt (.choice a b) (.choice a' b') :=
  firstOf faces (.cons left (.cons right .nil))

end Orders
end Backtrack
