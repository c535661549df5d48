import Backtrack.Proofs.Sending

/-! What an effect can do, said once. It is refused where it needs a pending entry and there is none;
otherwise it leaves both stacks as its kind tells, and sends one message or none. -/
namespace Backtrack

variable {σ : Type}

namespace Pending

theorem pop_of_empty {p : Pending} (empty : p.stack = #[]) : p.pop = p := by
  cases p
  cases empty
  rfl

/-- The entries once one that a failed attempt left has been claimed. -/
def claimed (p : Pending) (start : Nat) : Pending := (p.claim? start).elim p (·.2)

/-- Claiming takes nothing off the stack and nothing off the abandoned list. -/
theorem claimed_same (p : Pending) (start : Nat) :
    (p.claimed start).stack = p.stack ∧ (p.claimed start).abandoned.size = p.abandoned.size := by
  unfold claimed
  cases claim : p.claim? start with
  | none => exact ⟨rfl, rfl⟩
  | some found =>
    simp only [claim?, Option.bind_eq_bind, Option.bind_eq_some_iff, Option.pure_def,
      Option.some.injEq] at claim
    obtain ⟨index, _, abandoned, _, rfl⟩ := claim
    exact ⟨rfl, Array.size_setIfInBounds⟩

@[simp] theorem depth_claimed (p : Pending) (start : Nat) : (p.claimed start).depth = p.depth :=
  congrArg Array.size (p.claimed_same start).1

end Pending

namespace Diagnostics

/-- Why an effect is refused: there is no entry to replace or to forget. -/
def refusal? (m : Monitor σ) (e : Effect) (span : Span) (d : Diagnostics σ) : Option Fault :=
  match e with
  | .prepare message => if d.pending.depth = 0 then some (.nothingToPrepare message.text) else none
  | .cancel =>
    if d.pending.depth = 0 then some (.nothingToCancel (m.lines.line span.start)) else none
  | _ => none

/-- The message that an effect sends. -/
def notice? (m : Monitor σ) (e : Effect) (span : Span) (d : Diagnostics σ) : Option Notice :=
  match e with
  | .pop => d.pending.stack.back?.map (·.notice)
  | .popAbandoned => (d.pending.claim? span.start).map (·.1.notice)
  | .sendNow message => some { message with line := m.lines.line span.start }
  | _ => none

/-- The pending entries behind an effect. -/
def pendingAfter (m : Monitor σ) (e : Effect) (span : Span) (d : Diagnostics σ) : Pending :=
  let line := m.lines.line span.start
  match e with
  | .push message => d.pending.push ⟨message, line⟩
  | .prepare message => d.pending.pop.push ⟨message, line⟩
  | .cancel | .pop => d.pending.pop
  | .popAbandoned => d.pending.claimed span.start
  | _ => d.pending

/-- The open scopes behind an effect. -/
def crumbsAfter (m : Monitor σ) (e : Effect) (span : Span) (d : Diagnostics σ) : Breadcrumbs :=
  match e with
  | .enterScope label => d.crumbs.push (crumbAt m label span)
  | .leaveScope => d.crumbs.pop
  | .replaceScope label => d.crumbs.replace (crumbAt m label span)
  | _ => d.crumbs

variable {m : Monitor σ} {e : Effect} {span : Span} {d d' : Diagnostics σ} {notice : Notice}

theorem apply_eq (m : Monitor σ) (e : Effect) (span : Span) (d : Diagnostics σ) :
    apply m e span d =
      match refusal? m e span d, notice? m e span d with
      | some fault, _ => .error (.fault fault) d
      | none, some notice => send m notice { d with pending := pendingAfter m e span d }
      | none, none => .ok () { d with
          pending := pendingAfter m e span d
          crumbs := crumbsAfter m e span d } := by
  cases e with
  | push | sendNow | enterScope | leaveScope | replaceScope => rfl
  | prepare | cancel =>
    simp only [apply, refusal?]
    split <;> rfl
  | pop =>
    cases top : d.pending.stack.back? with
    | some entry => simp [apply, refusal?, notice?, pendingAfter, top]
    | none =>
      have still : d.pending.pop = d.pending := Pending.pop_of_empty (Array.back?_eq_none_iff.mp top)
      simp [apply, refusal?, notice?, pendingAfter, crumbsAfter, top, still]
  | popAbandoned =>
    cases claim : d.pending.claim? span.start <;>
      simp [apply, refusal?, notice?, pendingAfter, crumbsAfter, Pending.claimed, claim]

/-- An effect is refused, or changes no more than the stacks, or sends the one message that it tells
with the pending entries changed. -/
@[elab_as_elim]
theorem apply_cases {motive : EStateM.Result Stop (Diagnostics σ) Unit → Prop} (m : Monitor σ)
    (e : Effect) (span : Span) (d : Diagnostics σ)
    (refused : ∀ fault, refusal? m e span d = some fault → motive (.error (.fault fault) d))
    (quiet : notice? m e span d = none → motive (.ok () { d with
      pending := pendingAfter m e span d
      crumbs := crumbsAfter m e span d }))
    (sends : ∀ notice, notice? m e span d = some notice →
      motive (send m notice { d with pending := pendingAfter m e span d })) :
    motive (apply m e span d) := by
  rw [apply_eq]
  cases refusal : refusal? m e span d with
  | some fault => exact refused fault refusal
  | none =>
    cases told : notice? m e span d with
    | some notice => exact sends notice told
    | none => exact quiet told

/-- An effect that sends a message moves no scope. -/
theorem crumbsAfter_of_notice (told : notice? m e span d = some notice) :
    crumbsAfter m e span d = d.crumbs := by
  cases e <;> first | rfl | cases told

theorem refusal?_of_ok (done : apply m e span d = .ok () d') : refusal? m e span d = none := by
  rw [apply_eq] at done
  cases refused : refusal? m e span d with
  | none => rfl
  | some fault =>
    rw [refused] at done
    cases done

/-- The stacks behind an effect that is performed. -/
theorem apply_ok (done : apply m e span d = .ok () d') :
    d'.pending = pendingAfter m e span d ∧ d'.crumbs = crumbsAfter m e span d := by
  rw [apply_eq] at done
  split at done
  next => cases done
  next _ told =>
    rw [crumbsAfter_of_notice told]
    exact send_ok done
  next =>
    cases done
    exact ⟨rfl, rfl⟩

end Diagnostics

end Backtrack
