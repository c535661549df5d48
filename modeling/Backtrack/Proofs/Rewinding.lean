import Backtrack.Proofs.Balance
import Backtrack.Proofs.Derivation

/-! What a failed attempt takes back. It remembers heights alone, so it takes back what stands above
them: the journal is as it was before, and neither stack is higher. What an effect has taken off a
stack below that height, or put in the place of what stood there, is not brought back. Where no
effect has reached below, the stacks are as they were. -/
namespace Backtrack

variable {σ α : Type}

namespace Stack

/-- How many entries from the top an effect may change. -/
def reach : Stack → Effect → Nat
  | pending, .prepare _ | pending, .cancel | pending, .pop => 1
  | scopes, .leaveScope | scopes, .replaceScope _ => 1
  | _, _ => 0

/-- How many entries an effect may take off. -/
def removes : Stack → Effect → Nat
  | pending, .cancel | pending, .pop | scopes, .leaveScope => 1
  | _, _ => 0

/-- What stands on a stack, bottom first. -/
def contents : Stack → Diagnostics σ → List (Entry ⊕ Breadcrumb)
  | pending, d => d.pending.stack.toList.map .inl
  | scopes, d => d.crumbs.scopes.toList.map .inr

theorem length_contents (stack : Stack) (d : Diagnostics σ) :
    (stack.contents d).length = stack.depth d := by
  cases stack <;> simp [contents, depth, Pending.depth, Breadcrumbs.depth]

/-- Taking back cuts a stack to the height that was remembered. -/
theorem contents_rewind (stack : Stack) (d e : Diagnostics σ) (pos : Nat) :
    stack.contents (e.rewind d.mark pos) = (stack.contents e).take (stack.depth d) := by
  cases stack with
  | pending =>
    change ((e.pending.abandonFrom d.pending.depth pos).stack.toList.map _) = _
    simp [Pending.abandonFrom_stack, contents, depth]
  | scopes =>
    simp [contents, Diagnostics.rewind, Diagnostics.mark, depth, Breadcrumbs.truncate,
      Array.shrink_eq_take]

end Stack

/-- An effect leaves what it does not reach. -/
theorem Diagnostics.apply_leaves {m : Monitor σ} {e : Effect} {span : Span} {d d' : Diagnostics σ}
    (done : apply m e span d = .ok () d') (stack : Stack) :
    (stack.contents d).take (stack.depth d - stack.reach e) <+: stack.contents d' := by
  obtain ⟨pending, crumbs⟩ := apply_ok done
  rw [← Stack.length_contents]
  cases stack with
  | pending =>
    simp only [Stack.contents, pending]
    cases e with
    | push => exact (List.take_prefix ..).trans (by simp [pendingAfter, Pending.push])
    | prepare | cancel | pop =>
      simp [Stack.reach, pendingAfter, Pending.push, Pending.pop, List.dropLast_eq_take]
    | popAbandoned =>
      simp only [pendingAfter, (Pending.claimed_same ..).1]
      exact List.take_prefix ..
    | _ => exact List.take_prefix ..
  | scopes =>
    simp only [Stack.contents, crumbs]
    cases e with
    | enterScope => exact (List.take_prefix ..).trans (by simp [crumbsAfter, Breadcrumbs.push])
    | leaveScope | replaceScope =>
      simp [Stack.reach, crumbsAfter, Breadcrumbs.replace, Breadcrumbs.push, Breadcrumbs.pop,
        List.dropLast_eq_take]
    | _ => exact List.take_prefix ..

/-- A stack loses what an effect takes off it, and no more. -/
theorem Diagnostics.apply_removes {m : Monitor σ} {e : Effect} {span : Span} {d d' : Diagnostics σ}
    (done : apply m e span d = .ok () d') (stack : Stack) :
    stack.depth d - stack.removes e ≤ stack.depth d' := by
  obtain ⟨pending, crumbs⟩ := apply_ok done
  cases stack with
  | pending =>
    simp only [Stack.depth, pending]
    cases e with
    | popAbandoned => simp [Stack.removes, pendingAfter]
    | _ =>
      simp only [Stack.removes, pendingAfter, Pending.depth, Pending.push, Pending.pop,
        Array.size_push, Array.size_pop]
      omega
  | scopes =>
    simp only [Stack.depth, crumbs]
    cases e <;> simp only [Stack.removes, crumbsAfter, Breadcrumbs.depth, Breadcrumbs.push,
      Breadcrumbs.pop, Breadcrumbs.replace, Array.size_push, Array.size_pop] <;> omega

section Rewinding

variable {subject : Subject σ} {rule : Rule α} {silent : Bool} {pos : Nat} {s s' : Matching σ α}
  {t : List (Performance σ)}

/-- What no effect of an attempt reaches stands to its end, however the attempt ends. -/
theorem Evaluates.leaves_below {stage : Stage} {r : Verdict σ α}
    (h : Evaluates subject stage rule silent pos s t r) (stack : Stack)
    {low : List (Entry ⊕ Breadcrumb)} (below : low <+: stack.contents s.diagnostics)
    (apart : ∀ p ∈ t, low.length ≤ stack.depth p.state - stack.reach p.effect) :
    ∀ m s', r = .ok m s' → low <+: stack.contents s'.diagnostics := by
  have keeps : Kept subject (low <+: stack.contents ·)
      (fun p => low.length ≤ stack.depth p.state - stack.reach p.effect) := {
    settle := fun {d e} _ stands => by
      cases stack <;> exact stands
    rewind := fun {d e pos} before stands => by
      rw [Stack.contents_rewind]
      exact List.prefix_take_iff.mpr ⟨stands, Stack.length_contents stack d ▸ before.length_le⟩
    perform := fun {p d} unreached stands done => by
      obtain ⟨span, applied⟩ := Performance.apply_of_outcome done
      have kept := List.prefix_take_iff.mpr ⟨stands, unreached⟩
      exact kept.trans (Diagnostics.apply_leaves applied stack) }
  exact (h.kept keeps apart below).2

/-- A stack stays as high as it was if no effect takes off what stood there. -/
theorem Evaluates.stays_high {stage : Stage} {r : Verdict σ α}
    (h : Evaluates subject stage rule silent pos s t r) (stack : Stack)
    (apart : ∀ p ∈ t, stack.depth s.diagnostics ≤ stack.depth p.state - stack.removes p.effect) :
    ∀ m s', r = .ok m s' → stack.depth s.diagnostics ≤ stack.depth s'.diagnostics := by
  have keeps : Kept subject (stack.depth s.diagnostics ≤ stack.depth ·)
      (fun p => stack.depth s.diagnostics ≤ stack.depth p.state - stack.removes p.effect) := {
    settle := fun {d e} _ high => by
      cases stack <;> exact high
    rewind := fun {d e pos} before high => by
      rw [← Stack.length_contents stack (e.rewind d.mark pos), Stack.contents_rewind,
        List.length_take, Stack.length_contents]
      exact Nat.le_min.mpr ⟨before, high⟩
    perform := fun {p d} enough _ done => by
      obtain ⟨span, applied⟩ := Performance.apply_of_outcome done
      exact Nat.le_trans enough (Diagnostics.apply_removes applied stack) }
  exact (h.kept keeps apart (Nat.le_refl _)).2

/-- A failure leaves neither stack higher than it was. -/
theorem Evaluates.failed_depth (h : Evaluates subject .attempt rule silent pos s t (.ok none s'))
    (stack : Stack) : stack.depth s'.diagnostics ≤ stack.depth s.diagnostics := by
  generalize failed : (EStateM.Result.ok none s' : Verdict σ α) = r at h
  cases h with
  | @close _ _ _ _ _ r _ =>
    rcases r with ⟨_ | next, s₁⟩ | ⟨stop, s₁⟩ <;> cases failed
    rw [← Stack.length_contents, Stack.contents_rewind]
    exact List.length_take_le ..

end Rewinding

/-- A run that fails takes back what stands above the heights that it began at. The journal is as it
was, and neither stack is higher. A stack is as high as it was if the rule draws on it evenly, and
also if no effect of the run has taken off what stood there before; to put another message or scope
in the place of one takes nothing off. Of what stood there before, everything that no effect of the
run has reached still stands: preparing, cancelling or sending a pending message reaches the topmost
entry, leaving or replacing a scope the innermost one. So a stack on which no effect has reached
below the height that the run began at is what it was. In a choice the other alternative starts from
there. -/
theorem run_takes_back (source : Source) (stop : Nat) (monitor : Monitor σ) (rule : Rule α)
    (silent : Bool) (pos : Nat) (s : Matching σ α) (inside : pos ≤ min stop source.size) :
    let subject := Subject.upTo source stop monitor
    ∀ s', rule.run subject silent pos s = .ok none s' →
      s'.events = s.events ∧
      (∀ stack : Stack, stack.depth s'.diagnostics ≤ stack.depth s.diagnostics) ∧
      (∀ (stack : Stack) (draw : Draw), rule.draw? stack.draw = some draw →
        draw.need ≤ stack.depth s.diagnostics →
        stack.depth s'.diagnostics = stack.depth s.diagnostics) ∧
      (∃ t, Evaluates subject .attempt rule silent pos s t (.ok none s')) ∧
      (∀ t, Evaluates subject .attempt rule silent pos s t (.ok none s') → ∀ stack : Stack,
        (∀ low, low <+: stack.contents s.diagnostics →
          (∀ p ∈ t, low.length ≤ stack.depth p.state - stack.reach p.effect) →
          low <+: stack.contents s'.diagnostics) ∧
        ((∀ p ∈ t, stack.depth s.diagnostics ≤ stack.depth p.state - stack.reach p.effect) →
          stack.contents s'.diagnostics = stack.contents s.diagnostics) ∧
        ((∀ p ∈ t, stack.depth s.diagnostics ≤ stack.depth p.state - stack.removes p.effect) →
          stack.depth s'.diagnostics = stack.depth s.diagnostics)) ∧
      ∀ other, (rule ||| other).step subject silent pos s = other.run subject silent pos s' := by
  intro subject s' failed
  have bounded : subject.Bounded := Subject.upTo_bounded source stop monitor
  obtain ⟨t, evaluation⟩ := rule.evaluates bounded silent pos s inside
  rw [failed] at evaluation
  have silently (look : silent = true) : s' = s := by
    subst look
    obtain ⟨-, _, same⟩ := evaluation.silent_unchanged
    cases same
    rfl
  refine ⟨?_, evaluation.failed_depth, ?_, ⟨t, evaluation⟩, ?_, ?_⟩
  · cases silent with
    | true => rw [silently rfl]
    | false => exact Array.toList_inj.mp (evaluation.journaled bounded inside)
  · intro stack draw known enough
    cases silent with
    | true => rw [silently rfl]
    | false => exact (evaluation.drawn known enough).1
  · intro t evaluation stack
    have stands (low : List (Entry ⊕ Breadcrumb)) (below : low <+: stack.contents s.diagnostics)
        (apart : ∀ p ∈ t, low.length ≤ stack.depth p.state - stack.reach p.effect) :
        low <+: stack.contents s'.diagnostics :=
      evaluation.leaves_below stack below apart _ _ rfl
    have level := evaluation.failed_depth stack
    refine ⟨stands, fun apart => ?_, fun apart => ?_⟩
    · have whole := stands _ (List.prefix_refl _)
        (Stack.length_contents stack s.diagnostics ▸ apart)
      rw [← Stack.length_contents, ← Stack.length_contents] at level
      exact (whole.eq_of_length_le level).symm
    · exact Nat.le_antisymm level (evaluation.stays_high stack apart _ _ rfl)
  · intro other
    change (rule.choice other).step subject silent pos s = _
    rw [Rule.step_choice, failed]

/-- A pushed entry goes and the entry below it stays. -/
theorem run_takes_back_push :
    let rule : Rule Nat := (Rule.literal [0x61]).push (.minor "sharp") ++ .nothing
    let monitor : Monitor Unit := (Subject.ofInput []).monitor
    let subject := Subject.upTo #[0x61] 1 monitor
    let s : Matching Unit Nat :=
      { diagnostics := { pending := { stack := #[⟨.minor "vague", 1⟩] }, world := () } }
    0 ≤ min 1 (#[0x61] : Source).size ∧
    ∃ s' t, rule.run subject false 0 s = .ok none s' ∧
      Evaluates subject .attempt rule false 0 s t (.ok none s') ∧ t ≠ [] ∧
      (∀ p ∈ t, Stack.pending.depth s.diagnostics ≤
        Stack.pending.depth p.state - Stack.pending.reach p.effect) ∧
      Stack.pending.contents s'.diagnostics = Stack.pending.contents s.diagnostics := by
  intro rule monitor subject s
  let pushed : Performance Unit := ⟨.push (.minor "sharp"), 0, 1, s.diagnostics⟩
  have body : Evaluates subject .body (Rule.literal [0x61]) false 0 s [] (.ok (some 1) s) :=
    .leaf rfl
  have letter : Evaluates subject .attempt (Rule.literal [0x61]) false 0 s [] (.ok (some 1) s) := by
    simpa using body.close
  have first := Evaluates.effectNext (e := .push (.minor "sharp")) letter rfl
  have second (s : Matching Unit Nat) : Evaluates subject .body .nothing false 1 s [] (.ok none s) :=
    .leaf rfl
  obtain ⟨s', evaluation⟩ : ∃ s', Evaluates subject .attempt rule false 0 s [pushed] (.ok none s') :=
    ⟨_, .close (.seqNext first.close (second _).close)⟩
  have run := evaluation.verdict_eq (Subject.upTo_bounded ..) (by decide)
  have apart : ∀ p ∈ [pushed], Stack.pending.depth s.diagnostics ≤
      Stack.pending.depth p.state - Stack.pending.reach p.effect := by
    simp [pushed, Stack.reach]
  have taken := run_takes_back #[0x61] 1 monitor rule false 0 s (by decide) s' run
  exact ⟨by decide, s', [pushed], run, evaluation, by simp, apart,
    (taken.2.2.2.2.1 _ evaluation .pending).2.1 apart⟩

/-- What an attempt has put in the place of an earlier entry, and the earlier entry or scope that it
has taken off, do not come back when the attempt fails: the other alternative finds the new text. -/
theorem failed_run_leaves_traces :
    let subject := Subject.ofInput [0x61]
    let a : Rule Nat := .literal [0x61]
    let scope : Breadcrumb := ⟨"outside", "", none⟩
    let s : Matching Unit Nat :=
      { diagnostics := {
          pending := { stack := #[⟨.minor "vague", 1⟩] }
          crumbs := { scopes := #[scope] }
          world := () } }
    (∃ s', (a.prepare (.minor "sharp") ++ .nothing).run subject false 0 s = .ok none s' ∧
      s'.diagnostics.pending.texts = ["sharp"]) ∧
    (∃ s', (a.cancel ++ .nothing).run subject false 0 s = .ok none s' ∧
      s'.diagnostics.pending.texts = []) ∧
    (∃ s', (a.leaveScope ++ .nothing).run subject false 0 s = .ok none s' ∧
      s'.diagnostics.crumbs.scopes = #[]) ∧
    ∃ s', (a.prepare (.minor "sharp") ++ .nothing ||| a).run subject false 0 s =
      .ok (some 1) s' ∧ s'.diagnostics.pending.texts = ["sharp"] :=
  ⟨⟨_, rfl, rfl⟩, ⟨_, rfl, rfl⟩, ⟨_, rfl, rfl⟩, ⟨_, rfl, rfl⟩⟩

end Backtrack
