import Backtrack.Proofs.Adequacy

/-! Sending, apart from what is sent. A message that is sent moves neither stack, and sending ends
without a fault under a sink that does not give up: it goes on, or the budget is used up. -/
namespace Backtrack

variable {σ α β τ : Type}

/-- Ended with a result or without budget. -/
def Faultless : EStateM.Result Stop τ β → Prop
  | .error (.fault _) _ => False
  | _ => True

theorem Faultless.bind {γ : Type} {x : EStateM Stop τ β} {f : β → EStateM Stop τ γ} {s : τ}
    (first : Faultless (x s)) (rest : ∀ result s', x s = .ok result s' → Faultless (f result s')) :
    Faultless ((x >>= f) s) := by
  rw [bind_apply]
  rcases h : x s with ⟨result, s'⟩ | ⟨errors | fault, s'⟩
  · exact rest result s' h
  · trivial
  · rw [h] at first
    exact first

theorem Faultless.forM {f : α → EStateM Stop τ PUnit} (each : ∀ a s, Faultless (f a s))
    (items : List α) (s : τ) : Faultless (items.forM f s) := by
  induction items generalizing s with
  | nil => trivial
  | cons a items ih =>
    change Faultless ((f a >>= fun _ => items.forM f) s)
    exact (each a s).bind fun _ s' _ => ih s'

theorem Faultless.on_diagnostics {op : Diagnosing σ β} {s : Matching σ α}
    (h : Faultless (op s.diagnostics)) : Faultless (Matching.onDiagnostics op s) := by
  simp only [Matching.onDiagnostics]
  rcases run : op s.diagnostics with _ | ⟨errors | fault, d⟩
  · trivial
  · trivial
  · rw [run] at h
    exact h

/-- The sink never gives up. -/
def Monitor.Calm (m : Monitor σ) : Prop :=
  ∀ world notice reason, (m.sink world notice).2 ≠ .crash reason

namespace Diagnostics

variable {m : Monitor σ} {notice : Notice} {d d' : Diagnostics σ}

theorem deliver_faultless (calm : m.Calm) (notice : Notice) (d : Diagnostics σ) :
    Faultless (deliver m notice d) := by
  unfold deliver
  split
  · trivial
  · have keeps := calm d.world notice
    rcases answered : m.sink d.world notice with ⟨world, _ | _ | reason⟩ <;>
      rw [answered] at keeps
    · trivial
    · trivial
    · exact absurd rfl (keeps reason)

theorem introduce_faultless (calm : m.Calm) (notice : Notice) (d : Diagnostics σ) :
    Faultless (introduce m notice d) := by
  unfold introduce
  split
  · exact deliver_faultless calm _ d
  · trivial

/-- A message entered in the report, whatever is left of the budget. -/
def charged (notice : Notice) (d : Diagnostics σ) : Diagnostics σ :=
  { d with
    report := ⟨d.report.errors + if notice.level.isError then 1 else 0,
      max d.report.highest notice.level⟩
    last := some notice.text }

theorem charge_eq (m : Monitor σ) (notice : Notice) (d : Diagnostics σ) :
    charge m notice d =
      if notice.level.isError ∧ m.budget ≤ (d.charged notice).report.errors then
        .error (.aborted (d.charged notice).report.errors) (d.charged notice)
      else .ok () (d.charged notice) := rfl

theorem charge_faultless (m : Monitor σ) (notice : Notice) (d : Diagnostics σ) :
    Faultless (charge m notice d) := by
  rw [charge_eq]
  split <;> trivial

theorem send_faultless (calm : m.Calm) (notice : Notice) (d : Diagnostics σ) :
    Faultless (send m notice d) :=
  (introduce_faultless calm notice d).bind fun _ d₁ _ =>
    (deliver_faultless calm notice d₁).bind fun _ d₂ _ => charge_faultless m notice d₂

theorem flushAbandoned_faultless (calm : m.Calm) (d : Diagnostics σ) :
    Faultless (flushAbandoned m d) := by
  refine Faultless.bind (x := get) trivial fun _ _ _ => ?_
  refine Faultless.bind trivial fun _ d₂ _ => ?_
  exact Faultless.forM (fun (a : Abandoned) d => send_faultless calm a.entry.notice d) _ d₂

theorem announceAbort_faultless (calm : m.Calm) (restatement : Option String)
    (d : Diagnostics σ) : Faultless (announceAbort m restatement d) := by
  refine Faultless.bind (x := get) trivial fun last _ _ => ?_
  refine Faultless.bind trivial fun _ d₁ _ => ?_
  refine (deliver_faultless calm _ d₁).bind fun _ d₂ _ => ?_
  exact (deliver_faultless calm _ d₂).bind fun _ d₃ _ => trivial

theorem deliver_ok (h : deliver m notice d = .ok () d') :
    ∃ world detached, d' = { d with world := world, detached := detached } := by
  unfold deliver at h
  split at h
  · cases h
    exact ⟨_, _, rfl⟩
  · rcases sent : m.sink d.world notice with ⟨world, _ | _ | reason⟩ <;> rw [sent] at h <;> cases h
    · exact ⟨_, _, rfl⟩
    · exact ⟨_, _, rfl⟩

theorem introduce_ok (h : introduce m notice d = .ok () d') :
    ∃ world detached, d' = { d with world := world, detached := detached } := by
  unfold introduce at h
  split at h
  · exact deliver_ok h
  · cases h
    exact ⟨_, _, rfl⟩

/-- A message that is sent moves neither stack. -/
theorem send_ok (h : send m notice d = .ok () d') :
    d'.pending = d.pending ∧ d'.crumbs = d.crumbs := by
  unfold send at h
  rw [bind_apply] at h
  cases introduced : introduce m notice d with
  | error => simp [introduced] at h
  | ok _ d₁ =>
    obtain ⟨_, _, rfl⟩ := introduce_ok introduced
    rw [introduced] at h
    dsimp only at h
    rw [bind_apply] at h
    split at h
    next delivered =>
      obtain ⟨_, _, rfl⟩ := deliver_ok delivered
      rw [charge_eq] at h
      split at h
      · cases h
      · cases h
        exact ⟨rfl, rfl⟩
    next => cases h

end Diagnostics

end Backtrack
