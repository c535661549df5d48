import Backtrack.Proofs.Ledger

/-! The chronicle of an evaluation: the ledger is kept along with the diagnostics, effect by effect,
and each attempt is settled or taken back in it when it ends. So every evaluation has a ledger, and
the ledger shows for each push of the evaluation what has become of it. -/
namespace Backtrack

variable {σ α : Type} {subject : Subject σ}

inductive Chronicle (subject : Subject σ) :
    Diagnostics σ → Ledger → List (Performance σ) → Diagnostics σ → Ledger → Prop where
  | nil {d g} : Chronicle subject d g [] d g
  | append {d g t d₁ g₁ u d₂ g₂} : Chronicle subject d g t d₁ g₁ → Chronicle subject d₁ g₁ u d₂ g₂ →
      Chronicle subject d g (t ++ u) d₂ g₂
  | perform {p : Performance σ} {d g} : p.outcome subject = .ok () d →
      Chronicle subject p.state g [p] d (g.perform subject p)
  | succeed {d g t d₁ g₁} : Chronicle subject d g t d₁ g₁ →
      Chronicle subject d g t (d₁.settle d.mark) (g₁.settle g)
  | fail {d g t d₁ g₁} (pos : Nat) : Chronicle subject d g t d₁ g₁ →
      Chronicle subject d g t (d₁.rewind d.mark pos) (g₁.rewind g)

/-- The ledger of an evaluation that ends in a verdict. The effect that stops one is entered too. -/
inductive Verdict.Enters (subject : Subject σ) (d : Diagnostics σ) (g : Ledger) :
    List (Performance σ) → Ledger → Verdict σ α → Prop where
  | ended {t g' m s} : Chronicle subject d g t s.diagnostics g' →
      Enters subject d g t g' (.ok m s)
  | stopped {u p g₁ stop s} : Chronicle subject d g u p.state g₁ →
      p.outcome subject = .error stop s.diagnostics →
      Enters subject d g (u ++ [p]) (g₁.perform subject p) (.error stop s)

theorem Verdict.Enters.after {d d₁ : Diagnostics σ} {g g₁ g₂ : Ledger} {t u : List (Performance σ)}
    {r : Verdict σ α} (first : Chronicle subject d g t d₁ g₁) (second : r.Enters subject d₁ g₁ u g₂) :
    r.Enters subject d g (t ++ u) g₂ := by
  cases second with
  | ended rest => exact .ended (first.append rest)
  | stopped before stops =>
    rw [← List.append_assoc]
    exact .stopped (first.append before) stops

/-- Every evaluation has a ledger. -/
theorem Evaluates.enters {stage : Stage} {rule : Rule α} {silent : Bool} {pos : Nat}
    {s : Matching σ α} {t : List (Performance σ)} {r : Verdict σ α}
    (h : Evaluates subject stage rule silent pos s t r) (g : Ledger) :
    ∃ g', r.Enters subject s.diagnostics g t g' := by
  induction h generalizing g with
  | leaf => exact ⟨g, .ended .nil⟩
  | seqEnd _ _ ih | choiceEnd _ _ ih | differenceEnd _ _ ih | optionalStop _ ih | manyStop _ ih
  | many1End _ _ ih | actionSilent _ ih | actionEnd _ _ ih | effectSilent _ ih
  | effectEnd _ _ ih => exact ih g
  | optionalNext _ ih | manyEnd _ _ ih | actionNext _ ih =>
    obtain ⟨g₁, ⟨whole⟩⟩ := ih g
    exact ⟨g₁, .ended whole⟩
  | seqNext _ _ ih₁ ih₂ | choiceNext _ _ ih₁ ih₂ | differenceStop _ _ ih₁ ih₂
  | manyNext _ _ _ ih₁ ih₂ | many1Next _ _ _ ih₁ ih₂ =>
    obtain ⟨g₁, ⟨first⟩⟩ := ih₁ g
    obtain ⟨g₂, second⟩ := ih₂ g₁
    exact ⟨g₂, second.after first⟩
  | differenceNext _ _ ih₁ ih₂ =>
    obtain ⟨g₁, ⟨first⟩⟩ := ih₁ g
    obtain ⟨g₂, ⟨second⟩⟩ := ih₂ g₁
    exact ⟨g₂, .ended (first.append second)⟩
  | effectStop _ stops ih =>
    obtain ⟨g₁, ⟨before⟩⟩ := ih g
    exact ⟨_, .stopped before stops⟩
  | effectNext _ done ih =>
    obtain ⟨g₁, ⟨before⟩⟩ := ih g
    exact ⟨_, .ended (before.append (.perform done))⟩
  | close _ ih =>
    obtain ⟨g₁, body⟩ := ih g
    cases body with
    | @ended _ _ m _ whole =>
      cases m with
      | none => exact ⟨_, .ended (.fail _ whole)⟩
      | some next => exact ⟨_, .ended (.succeed whole)⟩
    | stopped before stops => exact ⟨_, .stopped before stops⟩

/-- What these effects have done to the ledger. -/
structure Ledger.Records (subject : Subject σ) (g : Ledger) (t : List (Performance σ))
    (g' : Ledger) : Prop where
  sound : g.Sound → g'.Sound
  pushes : g'.pushes = g.pushes + t.countP (·.effect.pushes)
  sent : g'.sent.map Ticket.notice =
    g.sent.map Ticket.notice ++ t.filterMap (·.reported? subject)

namespace Ledger.Records

variable {g g₁ g₂ : Ledger} {t u : List (Performance σ)}

theorem refl (g : Ledger) : Records subject g [] g := ⟨id, rfl, (List.append_nil _).symm⟩

theorem trans (first : Records subject g t g₁) (second : Records subject g₁ u g₂) :
    Records subject g (t ++ u) g₂ where
  sound := second.sound ∘ first.sound
  pushes := by rw [second.pushes, first.pushes, List.countP_append, Nat.add_assoc]
  sent := by rw [second.sent, first.sent, List.filterMap_append, List.append_assoc]

theorem perform {p : Performance σ} (fits : g.Fits p.state.pending) (ordered : p.start ≤ p.stop) :
    Records subject g [p] (g.perform subject p) where
  sound sound := sound.perform subject p
  pushes := by simp [perform_pushes g ordered, List.countP_singleton]
  sent := by
    rw [fits.reports]
    cases sent : p.reported? subject <;> simp [sent]

theorem settle (records : Records subject g t g₁) (start : Ledger) :
    Records subject g t (g₁.settle start) :=
  ⟨fun sound => (records.sound sound).settle start, records.pushes, records.sent⟩

theorem rewind (records : Records subject g t g₁) (start : Ledger) :
    Records subject g t (g₁.rewind start) :=
  ⟨fun sound => (records.sound sound).rewind start, records.pushes, records.sent⟩

end Ledger.Records

theorem Ledger.Fits.mark {g : Ledger} {d : Diagnostics σ} (fits : g.Fits d.pending) :
    d.mark.depth = g.stack.length ∧ d.mark.abandoned = g.left.length := by
  have stack := congrArg List.length fits.stack
  have left := congrArg List.length fits.left
  simp only [List.length_map, Array.length_toList] at stack left
  exact ⟨stack, left⟩

section Evaluation

variable {d d' : Diagnostics σ} {g g' : Ledger} {t : List (Performance σ)}

/-- Along a chronicle the ledger shows what the engine holds, and records what the effects do. -/
theorem Chronicle.records (chronicle : Chronicle subject d g t d' g') (fits : g.Fits d.pending)
    (ordered : ∀ p ∈ t, p.start ≤ p.stop) :
    g'.Fits d'.pending ∧ Ledger.Records subject g t g' := by
  induction chronicle with
  | nil => exact ⟨fits, .refl _⟩
  | append _ _ ih₁ ih₂ =>
    obtain ⟨earlier, later⟩ := List.forall_mem_append.mp ordered
    obtain ⟨fits₁, first⟩ := ih₁ fits earlier
    obtain ⟨fits₂, second⟩ := ih₂ fits₁ later
    exact ⟨fits₂, first.trans second⟩
  | perform done =>
    exact ⟨fits.perform done, .perform fits (ordered _ (List.mem_singleton_self _))⟩
  | succeed _ ih =>
    obtain ⟨fits₁, body⟩ := ih fits ordered
    exact ⟨fits₁.settle fits.mark.2, body.settle _⟩
  | fail pos _ ih =>
    obtain ⟨fits₁, body⟩ := ih fits ordered
    exact ⟨fits₁.rewind fits.mark.1 pos, body.rewind _⟩

theorem Verdict.Enters.records {r : Verdict σ α} (enters : r.Enters subject d g t g')
    (fits : g.Fits d.pending) (ordered : ∀ p ∈ t, p.start ≤ p.stop) :
    Ledger.Records subject g t g' := by
  cases enters with
  | ended whole => exact (whole.records fits ordered).2
  | @stopped u p g₁ _ _ before _ =>
    obtain ⟨earlier, last⟩ := List.forall_mem_append.mp ordered
    obtain ⟨fits₁, first⟩ := before.records fits earlier
    exact first.trans (.perform fits₁ (last p (List.mem_singleton_self _)))

end Evaluation

end Backtrack
