import Backtrack.Proofs.Evaluation

/-! The diagnostics of an evaluation in a line. A trail leads through the performances in their
order; between them attempts are settled or taken back. What every such move preserves holds along
the whole evaluation, and an evaluation that stops early stops in its last performance. A lookahead
moves nothing. -/
namespace Backtrack

variable {σ α : Type} {subject : Subject σ}

inductive Trail (subject : Subject σ) :
    Diagnostics σ → List (Performance σ) → Diagnostics σ → Prop where
  | nil {d} : Trail subject d [] d
  | settle {d mark t final} : Trail subject (d.settle mark) t final → Trail subject d t final
  | rewind {d mark start t final} :
      Trail subject (d.rewind mark start) t final → Trail subject d t final
  | perform {p : Performance σ} {d t final} : p.outcome subject = .ok () d →
      Trail subject d t final → Trail subject p.state (p :: t) final

namespace Trail

variable {d middle final : Diagnostics σ} {t u : List (Performance σ)}

theorem append (first : Trail subject d t middle) (second : Trail subject middle u final) :
    Trail subject d (t ++ u) final := by
  induction first with
  | nil => exact second
  | settle _ ih => exact .settle (ih second)
  | rewind _ ih => exact .rewind (ih second)
  | perform done _ ih => exact .perform done (ih second)

theorem settled (trail : Trail subject d t final) (mark : DiagnosticMark) :
    Trail subject d t (final.settle mark) := by
  have last : Trail subject final [] (final.settle mark) := .settle .nil
  simpa using trail.append last

theorem rewound (trail : Trail subject d t final) (mark : DiagnosticMark) (start : Nat) :
    Trail subject d t (final.rewind mark start) := by
  have last : Trail subject final [] (final.rewind mark start) := .rewind .nil
  simpa using trail.append last

theorem performed {p : Performance σ} (trail : Trail subject d t p.state)
    (done : p.outcome subject = .ok () final) : Trail subject d (t ++ [p]) final :=
  trail.append (.perform done .nil)

theorem split {p : Performance σ} (trail : Trail subject d t final) (member : p ∈ t) :
    ∃ u v after, t = u ++ p :: v ∧ Trail subject d u p.state ∧
      p.outcome subject = .ok () after ∧ Trail subject after v final := by
  induction trail with
  | nil => simp at member
  | settle _ ih =>
    obtain ⟨u, v, after, rfl, before, done, rest⟩ := ih member
    exact ⟨u, v, after, rfl, .settle before, done, rest⟩
  | rewind _ ih =>
    obtain ⟨u, v, after, rfl, before, done, rest⟩ := ih member
    exact ⟨u, v, after, rfl, .rewind before, done, rest⟩
  | @perform q d' t' _ done rest ih =>
    rcases List.mem_cons.mp member with rfl | member
    · exact ⟨[], t', d', rfl, .nil, done, rest⟩
    · obtain ⟨u, v, after, rfl, before, later, tail⟩ := ih member
      exact ⟨q :: u, v, after, rfl, .perform done before, later, tail⟩

end Trail

/-- The diagnostics of a verdict lie at the end of a trail, or where its last performance stops. -/
def Verdict.Follows (subject : Subject σ) (d : Diagnostics σ) (t : List (Performance σ)) :
    Verdict σ α → Prop
  | .ok _ s => Trail subject d t s.diagnostics
  | .error stop s => ∃ u p, t = u ++ [p] ∧ Trail subject d u p.state ∧
      p.outcome subject = .error stop s.diagnostics

theorem Verdict.Follows.before {d : Diagnostics σ} {t : List (Performance σ)} {r : Verdict σ α}
    {p : Performance σ} (h : r.Follows subject d t) (member : p ∈ t) :
    ∃ u v, t = u ++ p :: v ∧ Trail subject d u p.state := by
  rcases r with ⟨m, s⟩ | ⟨stop, s⟩
  · obtain ⟨u, v, _, split, trail, -⟩ := Trail.split h member
    exact ⟨u, v, split, trail⟩
  · obtain ⟨w, last, rfl, trail, -⟩ := h
    rcases List.mem_append.mp member with earlier | latest
    · obtain ⟨u, v, _, rfl, before, -⟩ := trail.split earlier
      exact ⟨u, v ++ [last], by simp, before⟩
    · cases List.mem_singleton.mp latest
      exact ⟨w, [], rfl, trail⟩

theorem Verdict.Follows.after {d middle : Diagnostics σ} {t u : List (Performance σ)}
    {r : Verdict σ α} (first : Trail subject d t middle) (second : r.Follows subject middle u) :
    r.Follows subject d (t ++ u) := by
  cases r with
  | ok m s => exact first.append second
  | error stop s =>
    obtain ⟨v, p, rfl, before, stopped⟩ := second
    exact ⟨t ++ v, p, by simp, first.append before, stopped⟩

theorem Verdict.Follows.close {d : Diagnostics σ} {t : List (Performance σ)} {r : Verdict σ α}
    (body : r.Follows subject d t) (s : Matching σ α) (pos : Nat) :
    (s.close pos r).Follows subject d t := by
  rcases r with ⟨_ | next, s₁⟩ | ⟨stop, s₁⟩
  · exact Trail.rewound body ..
  · exact Trail.settled body ..
  · exact body

theorem Evaluates.follows {stage : Stage} {rule : Rule α} {silent : Bool} {pos : Nat}
    {s : Matching σ α} {t : List (Performance σ)} {r : Verdict σ α}
    (h : Evaluates subject stage rule silent pos s t r) : r.Follows subject s.diagnostics t := by
  induction h with
  | leaf => exact .nil
  | seqEnd _ _ ih | choiceEnd _ _ ih | differenceEnd _ _ ih | optionalStop _ ih
  | optionalNext _ ih | manyStop _ ih | manyEnd _ _ ih | many1End _ _ ih | actionSilent _ ih
  | actionEnd _ _ ih | actionNext _ ih | effectSilent _ ih | effectEnd _ _ ih => exact ih
  | seqNext _ _ ih₁ ih₂ | choiceNext _ _ ih₁ ih₂ | differenceStop _ _ ih₁ ih₂
  | differenceNext _ _ ih₁ ih₂ | manyNext _ _ _ ih₁ ih₂ | many1Next _ _ _ ih₁ ih₂ =>
    exact Verdict.Follows.after ih₁ ih₂
  | effectStop _ stopped ih => exact ⟨_, _, rfl, ih, stopped⟩
  | effectNext _ done ih => exact Trail.performed ih done
  | close _ ih => exact ih.close ..

/-- What is the same for all states that an evaluation meets, as long as it performs such effects. -/
structure Kept (subject : Subject σ) (holds : Diagnostics σ → Prop)
    (performs : Performance σ → Prop) : Prop where
  settle : ∀ {d e}, holds d → holds e → holds (e.settle d.mark)
  rewind : ∀ {d e pos}, holds d → holds e → holds (e.rewind d.mark pos)
  perform : ∀ {p d}, performs p → holds p.state → p.outcome subject = .ok () d → holds d

/-- Before each effect, and at the end if nothing stops the evaluation. -/
theorem Evaluates.kept {holds : Diagnostics σ → Prop} {performs : Performance σ → Prop}
    {stage : Stage} {rule : Rule α} {silent : Bool} {pos : Nat} {s : Matching σ α}
    {t : List (Performance σ)} {r : Verdict σ α} (keeps : Kept subject holds performs)
    (h : Evaluates subject stage rule silent pos s t r) (all : ∀ p ∈ t, performs p)
    (initial : holds s.diagnostics) :
    (∀ p ∈ t, holds p.state) ∧ ∀ m s', r = .ok m s' → holds s'.diagnostics := by
  induction h with
  | leaf =>
    refine ⟨List.forall_mem_nil _, ?_⟩
    rintro m s' ⟨⟩
    exact initial
  | seqEnd _ _ ih | choiceEnd _ _ ih | differenceEnd _ _ ih | optionalStop _ ih | manyStop _ ih
  | many1End _ _ ih | actionSilent _ ih | effectSilent _ ih | effectEnd _ _ ih =>
    exact ih all initial
  | actionEnd _ _ ih => exact ih all initial
  | seqNext _ _ ih₁ ih₂ | choiceNext _ _ ih₁ ih₂ | differenceStop _ _ ih₁ ih₂
  | manyNext _ _ _ ih₁ ih₂ | many1Next _ _ _ ih₁ ih₂ =>
    obtain ⟨first, second⟩ := List.forall_mem_append.mp all
    obtain ⟨before, mid⟩ := ih₁ first initial
    obtain ⟨after, last⟩ := ih₂ second (mid _ _ rfl)
    exact ⟨List.forall_mem_append.mpr ⟨before, after⟩, last⟩
  | differenceNext _ _ ih₁ ih₂ =>
    obtain ⟨first, second⟩ := List.forall_mem_append.mp all
    obtain ⟨before, mid⟩ := ih₁ first initial
    obtain ⟨after, last⟩ := ih₂ second (mid _ _ rfl)
    refine ⟨List.forall_mem_append.mpr ⟨before, after⟩, ?_⟩
    rintro m s' ⟨⟩
    exact last _ _ rfl
  | optionalNext _ ih | manyEnd _ _ ih | actionNext _ ih =>
    obtain ⟨before, last⟩ := ih all initial
    have here := last _ _ rfl
    refine ⟨before, ?_⟩
    rintro m s' ⟨⟩
    exact here
  | effectStop _ _ ih =>
    obtain ⟨before, last⟩ := ih (List.forall_mem_append.mp all).1 initial
    exact ⟨List.forall_mem_append.mpr ⟨before, List.forall_mem_singleton.mpr (last _ _ rfl)⟩, nofun⟩
  | effectNext _ done ih =>
    obtain ⟨part, own⟩ := List.forall_mem_append.mp all
    obtain ⟨before, last⟩ := ih part initial
    have here := last _ _ rfl
    refine ⟨List.forall_mem_append.mpr ⟨before, List.forall_mem_singleton.mpr here⟩, ?_⟩
    rintro m s' ⟨⟩
    exact keeps.perform (own _ (List.mem_singleton_self _)) here done
  | @close _ _ _ s _ r _ ih =>
    obtain ⟨before, last⟩ := ih all initial
    refine ⟨before, ?_⟩
    rcases r with ⟨_ | next, s₁⟩ | ⟨stop, s₁⟩ <;> rintro m s' ⟨⟩
    · exact keeps.rewind initial (last _ _ rfl)
    · exact keeps.settle initial (last _ _ rfl)

@[simp] theorem Diagnostics.settle_mark (d : Diagnostics σ) : d.settle d.mark = d := by
  simp [settle, mark, Array.shrink_eq_take]

@[simp] theorem Breadcrumbs.truncate_depth (b : Breadcrumbs) : b.truncate b.depth = b := by
  simp [truncate, depth, Array.shrink_eq_take]

@[simp] theorem Diagnostics.rewind_mark (d : Diagnostics σ) (start : Nat) :
    d.rewind d.mark start = d := by
  simp [rewind, mark, Pending.abandonFrom]

@[simp] theorem Matching.close_unchanged (s : Matching σ α) (pos : Nat) (m : Option Nat) :
    s.close pos (.ok m s) = .ok m s := by
  cases m <;> simp [close, Array.shrink_eq_take]

/-- A lookahead performs nothing and leaves its state as it was. -/
theorem Evaluates.silent_unchanged {stage : Stage} {rule : Rule α} {pos : Nat} {s : Matching σ α}
    {t : List (Performance σ)} {r : Verdict σ α}
    (h : Evaluates subject stage rule true pos s t r) : t = [] ∧ ∃ m, r = .ok m s := by
  generalize quiet : true = silent at h
  induction h with
  | leaf => exact ⟨rfl, _, rfl⟩
  | seqEnd _ _ ih | choiceEnd _ _ ih | differenceEnd _ _ ih | many1End _ _ ih | actionSilent _ ih
  | effectSilent _ ih => exact ih quiet
  | seqNext _ _ ih₁ ih₂ | choiceNext _ _ ih₁ ih₂ | manyNext _ _ _ ih₁ ih₂
  | many1Next _ _ _ ih₁ ih₂ =>
    obtain ⟨rfl, _, same⟩ := ih₁ quiet
    cases same
    exact ih₂ quiet
  | differenceStop _ _ _ ih =>
    obtain ⟨-, _, stopped⟩ := ih rfl
    cases stopped
  | differenceNext _ _ ih₁ ih₂ =>
    obtain ⟨rfl, _, same⟩ := ih₁ quiet
    cases same
    obtain ⟨rfl, _, same⟩ := ih₂ rfl
    cases same
    exact ⟨rfl, _, rfl⟩
  | optionalStop _ ih | manyStop _ ih =>
    obtain ⟨-, _, stopped⟩ := ih quiet
    cases stopped
  | optionalNext _ ih | manyEnd _ _ ih =>
    obtain ⟨rfl, _, same⟩ := ih quiet
    cases same
    exact ⟨rfl, _, rfl⟩
  | actionEnd | actionNext | effectEnd | effectStop | effectNext => contradiction
  | close _ ih =>
    obtain ⟨rfl, m, rfl⟩ := ih quiet
    exact ⟨rfl, m, by simp⟩

end Backtrack
