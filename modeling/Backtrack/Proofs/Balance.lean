import Backtrack.Proofs.Effects
import Backtrack.Proofs.Trail

/-! Balance of rules. Every effect draws on the two stacks: it needs entries and leaves entries. A
draw of a whole rule follows from those of its effects wherever failures can be taken back, since an
attempt that fails restores what was pushed but not what was popped. A rule with a draw never
performs an effect on a stack that is too low for it. -/
namespace Backtrack

variable {σ α : Type}

/-- Entries that are needed on a stack, and what stands in their place afterwards. -/
structure Draw where
  need : Nat
  left : Nat
  deriving DecidableEq

namespace Draw

def none : Draw := ⟨0, 0⟩

/-- One draw after another. -/
def andThen (first second : Draw) : Draw :=
  ⟨first.need + (second.need - first.left), second.left + (first.left - second.need)⟩

/-- Two draws that change the height alike, of which either may happen. -/
def or? (d e : Draw) : Option Draw :=
  if d.need + e.left = e.need + d.left then some ⟨max d.need e.need, max d.left e.left⟩
  else Option.none

/-- The draw of what can be taken back: a stack never ends lower than it began. -/
def rising? (d : Draw) : Option Draw := if d.need ≤ d.left then some d else Option.none

/-- The draw of what happens any number of times. -/
def level? (d : Draw) : Option Draw := if d.need = d.left then some d else Option.none

end Draw

/-- The two stacks that effects work on. -/
inductive Stack where
  | pending
  | scopes

namespace Stack

def depth : Stack → Diagnostics σ → Nat
  | pending, d => d.pending.depth
  | scopes, d => d.crumbs.depth

def draw : Stack → Effect → Draw
  | pending, .push _ => ⟨0, 1⟩
  | pending, .prepare _ => ⟨1, 1⟩
  | pending, .cancel => ⟨1, 0⟩
  | pending, .pop => ⟨1, 0⟩
  | scopes, .enterScope _ => ⟨0, 1⟩
  | scopes, .leaveScope => ⟨1, 0⟩
  | _, _ => .none

/-- A draw takes a stack from one height to another. Scopes may end higher, since a scope that is
replaced while none is open counts as nothing. -/
def Moves (stack : Stack) (draw : Draw) (before after : Nat) : Prop :=
  match stack with
  | pending => after + draw.need = before + draw.left
  | scopes => before + draw.left ≤ after + draw.need

end Stack

/-- The draw of a rule on a stack, given what each effect draws on it. -/
def Rule.draw? (of : Effect → Draw) : Rule α → Option Draw
  | empty | nothing | literal _ | set _ | endOfInput | skipTo _ => some .none
  | seq first second => do
    let first ← (← first.draw? of).rising?
    return first.andThen (← second.draw? of)
  | choice left right => do (← left.draw? of).or? (← right.draw? of)
  | difference keep _ => do (← keep.draw? of).rising?
  | optional rule | many rule | many1 rule => do (← rule.draw? of).level?
  | action rule _ => rule.draw? of
  | effect rule e => do return (← rule.draw? of).andThen (of e)

/-- A rule that needs no entries on either stack and leaves none. -/
def Rule.Balanced (rule : Rule α) : Prop := ∀ stack : Stack, rule.draw? stack.draw = some .none

/-- The stacks are high enough for the effect. -/
def Performance.Supported (p : Performance σ) : Prop :=
  ∀ stack : Stack, (stack.draw p.effect).need ≤ stack.depth p.state

section Stacks

variable {stack : Stack} {draw other : Draw} {before between after : Nat}

namespace Stack.Moves

theorem andThen (h₁ : stack.Moves draw before between) (h₂ : stack.Moves other between after) :
    stack.Moves (draw.andThen other) before after := by
  cases stack <;> simp only [Moves, Draw.andThen] at * <;> omega

theorem enough_then (h : stack.Moves draw before between)
    (enough : (draw.andThen other).need ≤ before) : other.need ≤ between := by
  cases stack <;> simp only [Moves, Draw.andThen] at enough h <;> omega

theorem rises (h : stack.Moves draw before after) (rising : draw.need ≤ draw.left) :
    before ≤ after := by
  cases stack <;> simp only [Moves] at h <;> omega

/-- Draws that change the height alike move it alike. -/
theorem alike (h : stack.Moves draw before after)
    (same : draw.need + other.left = other.need + draw.left) : stack.Moves other before after := by
  cases stack <;> simp only [Moves] at * <;> omega

theorem still (level : draw.need = draw.left) (height : Nat) :
    stack.Moves draw height height := by
  cases stack <;> simp only [Moves] <;> omega

theorem of_eq (level : draw.need = draw.left) (same : after = before) :
    stack.Moves draw before after := by
  rw [same]
  exact still level before

end Stack.Moves

theorem Draw.need_andThen (first second : Draw) : first.need ≤ (first.andThen second).need :=
  Nat.le_add_right ..

end Stacks

section Inversion

variable {of : Effect → Draw} {a b : Rule α} {whole : Draw}

theorem Rule.draw?_seq (known : (seq a b).draw? of = some whole) :
    ∃ first second, a.draw? of = some first ∧ first.need ≤ first.left ∧
      b.draw? of = some second ∧ whole = first.andThen second := by
  simp only [draw?, Draw.rising?, Option.bind_eq_bind, Option.bind_eq_some_iff, Option.pure_def,
    Option.some.injEq, Option.ite_none_right_eq_some] at known
  obtain ⟨first, knownFirst, _, ⟨rising, rfl⟩, second, knownSecond, rfl⟩ := known
  exact ⟨first, second, knownFirst, rising, knownSecond, rfl⟩

theorem Rule.draw?_choice (known : (choice a b).draw? of = some whole) :
    (∃ d, a.draw? of = some d ∧ d.need ≤ whole.need ∧
      d.need + whole.left = whole.need + d.left) ∧
    ∃ e, b.draw? of = some e ∧ e.need ≤ whole.need ∧ e.need + whole.left = whole.need + e.left := by
  simp only [draw?, Draw.or?, Option.bind_eq_bind, Option.bind_eq_some_iff, Option.some.injEq,
    Option.ite_none_right_eq_some] at known
  obtain ⟨d, knownLeft, e, knownRight, alike, rfl⟩ := known
  exact ⟨⟨d, knownLeft, by dsimp only; omega⟩, ⟨e, knownRight, by dsimp only; omega⟩⟩

theorem Rule.draw?_difference (known : (difference a b).draw? of = some whole) :
    a.draw? of = some whole ∧ whole.need ≤ whole.left := by
  simp only [draw?, Draw.rising?, Option.bind_eq_bind, Option.bind_eq_some_iff, Option.some.injEq,
    Option.ite_none_right_eq_some] at known
  obtain ⟨_, knownKeep, rising, rfl⟩ := known
  exact ⟨knownKeep, rising⟩

theorem Rule.draw?_level (known : (do (← a.draw? of).level?) = some whole) :
    a.draw? of = some whole ∧ whole.need = whole.left := by
  simp only [Draw.level?, Option.bind_eq_bind, Option.bind_eq_some_iff, Option.some.injEq,
    Option.ite_none_right_eq_some] at known
  obtain ⟨_, knownPart, level, rfl⟩ := known
  exact ⟨knownPart, level⟩

theorem Rule.draw?_effect {e : Effect} (known : (effect a e).draw? of = some whole) :
    ∃ d, a.draw? of = some d ∧ whole = d.andThen (of e) := by
  simp only [draw?, Option.bind_eq_bind, Option.bind_eq_some_iff, Option.pure_def,
    Option.some.injEq] at known
  obtain ⟨d, knownPart, rfl⟩ := known
  exact ⟨d, knownPart, rfl⟩

end Inversion

/-- An effect moves each stack by its draw. -/
theorem Diagnostics.apply_moves {m : Monitor σ} {e : Effect} {span : Span} {d d' : Diagnostics σ}
    (done : apply m e span d = .ok () d') (stack : Stack)
    (enough : (stack.draw e).need ≤ stack.depth d) :
    stack.Moves (stack.draw e) (stack.depth d) (stack.depth d') := by
  obtain ⟨pending, crumbs⟩ := apply_ok done
  cases stack with
  | pending =>
    simp only [Stack.depth, pending] at enough ⊢
    cases e with
    | push | prepare | cancel | pop =>
      simp only [Stack.Moves, Stack.draw, pendingAfter, Pending.depth, Pending.push, Pending.pop,
        Array.size_push, Array.size_pop] at enough ⊢ <;> omega
    | _ => simp [Stack.Moves, Stack.draw, Draw.none, pendingAfter]
  | scopes =>
    simp only [Stack.depth, crumbs] at enough ⊢
    cases e <;> simp only [Stack.Moves, Stack.draw, Draw.none, crumbsAfter, Breadcrumbs.depth,
      Breadcrumbs.push, Breadcrumbs.pop, Breadcrumbs.replace, Array.size_push,
      Array.size_pop] at enough ⊢ <;> omega

section Soundness

variable {subject : Subject σ} {stack : Stack} {rule : Rule α}

/-- What fails is cut off the stack. -/
theorem Pending.abandonFrom_stack (p : Pending) (depth start : Nat) :
    (p.abandonFrom depth start).stack = p.stack.take depth := by
  unfold abandonFrom
  split
  next low => exact (Array.extract_eq_self_of_le low).symm
  next => exact Array.shrink_eq_take

theorem Pending.depth_abandonFrom (p : Pending) (depth start : Nat) :
    (p.abandonFrom depth start).depth = min depth p.depth := by
  simp [Pending.depth, abandonFrom_stack]

theorem Diagnostics.settle_depth (d : Diagnostics σ) (mark : DiagnosticMark) :
    stack.depth (d.settle mark) = stack.depth d := by
  cases stack <;> rfl

/-- A failure that left a stack no lower than it was is taken back to where it was. -/
theorem Diagnostics.rewind_depth {d d' : Diagnostics σ} (start : Nat)
    (kept : stack.depth d ≤ stack.depth d') :
    stack.depth (d'.rewind d.mark start) = stack.depth d := by
  cases stack with
  | pending => exact (Pending.depth_abandonFrom ..).trans (Nat.min_eq_left kept)
  | scopes => exact Array.size_shrink.trans (Nat.min_eq_left kept)

/-- What a stage has done to a stack that was `before` high. -/
def Drawn (stack : Stack) (stage : Stage) (draw : Draw) (before : Nat) : Verdict σ α → Prop
  | .ok (some _) s => stack.Moves draw before (stack.depth s.diagnostics)
  | .ok none s =>
    match stage with
    | .body => before ≤ stack.depth s.diagnostics
    | .attempt => stack.depth s.diagnostics = before
  | .error _ _ => True

/-- Every effect in the list is performed on a stack that is high enough for it. -/
def AllSupported (stack : Stack) (t : List (Performance σ)) : Prop :=
  ∀ p ∈ t, (stack.draw p.effect).need ≤ stack.depth p.state

theorem Drawn.close {s : Matching σ α} {draw : Draw} {r : Verdict σ α} {pos : Nat}
    (h : Drawn stack .body draw (stack.depth s.diagnostics) r) :
    Drawn stack .attempt draw (stack.depth s.diagnostics) (s.close pos r) := by
  rcases r with ⟨_ | next, s₁⟩ | ⟨error, s₁⟩
  · exact Diagnostics.rewind_depth pos h
  · simpa only [Matching.close, Drawn, Diagnostics.settle_depth] using h
  · trivial

theorem Drawn.as {stage : Stage} {draw other : Draw} {before : Nat} {r : Verdict σ α}
    (h : Drawn stack stage draw before r)
    (same : draw.need + other.left = other.need + draw.left) :
    Drawn stack .body other before r := by
  rcases r with ⟨_ | next, s⟩ | ⟨error, s⟩
  · cases stage with
    | body => exact h
    | attempt => exact Nat.le_of_eq (Eq.symm h)
  · exact Stack.Moves.alike h same
  · trivial

/-- What ends a rule without a match counts for the rule, whatever its draw. -/
theorem Drawn.ends {draw other : Draw} {before : Nat} {r : Verdict σ α}
    (h : Drawn stack .attempt draw before r) (ends : r.position? = none) :
    Drawn stack .body other before r := by
  rcases r with ⟨_ | next, s⟩ | ⟨error, s⟩
  · exact Nat.le_of_eq (Eq.symm h)
  · cases ends
  · trivial

theorem Drawn.after {stage : Stage} {first second : Draw} {before between : Nat} {r : Verdict σ α}
    (moved : stack.Moves first before between) (rising : first.need ≤ first.left)
    (h : Drawn stack stage second between r) :
    Drawn stack .body (first.andThen second) before r := by
  rcases r with ⟨_ | next, s⟩ | ⟨error, s⟩
  · have kept := moved.rises rising
    cases stage with
    | body => exact Nat.le_trans kept h
    | attempt => exact Nat.le_trans kept (Nat.le_of_eq (Eq.symm h))
  · exact moved.andThen h
  · trivial

theorem Drawn.again {stage : Stage} {draw : Draw} {before between : Nat} {r : Verdict σ α}
    (moved : stack.Moves draw before between) (level : draw.need = draw.left)
    (h : Drawn stack stage draw between r) : Drawn stack .body draw before r := by
  refine (Drawn.after moved (Nat.le_of_eq level) h).as ?_
  simp only [Draw.andThen]
  omega

theorem Performance.apply_of_outcome {subject : Subject σ} {p : Performance σ}
    {d : Diagnostics σ} (done : p.outcome subject = .ok () d) :
    ∃ span, Diagnostics.apply subject.monitor p.effect span p.state = .ok () d := by
  unfold outcome at done
  split at done
  next span _ => exact ⟨span, done⟩
  next => cases done

theorem AllSupported.append {t u : List (Performance σ)} (first : AllSupported stack t)
    (second : AllSupported stack u) : AllSupported stack (t ++ u) := by
  intro p member
  rcases List.mem_append.mp member with left | right
  · exact first p left
  · exact second p right

theorem Evaluates.drawn {subject : Subject σ} {stage : Stage} {rule : Rule α} {pos : Nat}
    {s : Matching σ α} {t : List (Performance σ)} {r : Verdict σ α} {draw : Draw}
    (h : Evaluates subject stage rule false pos s t r) (known : rule.draw? stack.draw = some draw)
    (enough : draw.need ≤ stack.depth s.diagnostics) :
    Drawn stack stage draw (stack.depth s.diagnostics) r ∧ AllSupported stack t := by
  generalize loud : false = silent at h
  induction h generalizing draw with
  | @leaf rule _ _ _ m found =>
    refine ⟨?_, List.forall_mem_nil _⟩
    have still : draw = .none := by
      cases rule <;> simp_all [Rule.draw?, Rule.leaf?]
    subst still
    cases m with
    | none => exact Nat.le_refl _
    | some next => exact .still rfl _
  | seqEnd _ ends ih =>
    obtain ⟨first, second, knownFirst, rising, -, rfl⟩ := Rule.draw?_seq known
    obtain ⟨drawn, supported⟩ := ih knownFirst (Nat.le_trans (Draw.need_andThen ..) enough) loud
    exact ⟨drawn.ends ends, supported⟩
  | seqNext _ _ ih₁ ih₂ =>
    obtain ⟨first, second, knownFirst, rising, knownSecond, rfl⟩ := Rule.draw?_seq known
    obtain ⟨moved, supported⟩ := ih₁ knownFirst (Nat.le_trans (Draw.need_andThen ..) enough) loud
    obtain ⟨drawn, more⟩ := ih₂ knownSecond (Stack.Moves.enough_then moved enough) loud
    exact ⟨Drawn.after moved rising drawn, supported.append more⟩
  | choiceEnd _ _ ih =>
    obtain ⟨⟨d, knownLeft, less, alike⟩, -⟩ := Rule.draw?_choice known
    obtain ⟨drawn, supported⟩ := ih knownLeft (Nat.le_trans less enough) loud
    exact ⟨drawn.as alike, supported⟩
  | choiceNext _ _ ih₁ ih₂ =>
    obtain ⟨⟨d, knownLeft, lessLeft, -⟩, e, knownRight, less, alike⟩ := Rule.draw?_choice known
    obtain ⟨restored, supported⟩ := ih₁ knownLeft (Nat.le_trans lessLeft enough) loud
    have same : stack.depth _ = stack.depth _ := restored
    obtain ⟨drawn, more⟩ := ih₂ knownRight (by omega) loud
    rw [same] at drawn
    exact ⟨drawn.as alike, supported.append more⟩
  | differenceEnd _ ends ih =>
    obtain ⟨drawn, supported⟩ := ih (Rule.draw?_difference known).1 enough loud
    exact ⟨drawn.ends ends, supported⟩
  | differenceStop _ excluded =>
    obtain ⟨-, _, stopped⟩ := excluded.silent_unchanged
    cases stopped
  | @differenceNext _ _ _ _ _ _ next _ _ m _ _ excluded ih₁ _ =>
    obtain ⟨knownKeep, rising⟩ := Rule.draw?_difference known
    obtain ⟨rfl, _, same⟩ := excluded.silent_unchanged
    cases same
    obtain ⟨moved, supported⟩ := ih₁ knownKeep enough loud
    refine ⟨?_, by simpa using supported⟩
    split
    · exact Stack.Moves.rises moved rising
    · exact moved
  | optionalStop _ ih => exact ⟨trivial, (ih (Rule.draw?_level known).1 enough loud).2⟩
  | @optionalNext _ _ _ _ _ m _ _ ih =>
    obtain ⟨knownPart, level⟩ := Rule.draw?_level known
    obtain ⟨drawn, supported⟩ := ih knownPart enough loud
    cases m with
    | none => exact ⟨Stack.Moves.of_eq level drawn, supported⟩
    | some next => exact ⟨drawn, supported⟩
  | manyStop _ ih => exact ⟨trivial, (ih (Rule.draw?_level known).1 enough loud).2⟩
  | @manyEnd _ _ _ _ _ m _ _ _ ih =>
    obtain ⟨knownPart, level⟩ := Rule.draw?_level known
    obtain ⟨drawn, supported⟩ := ih knownPart enough loud
    cases m with
    | none => exact ⟨Stack.Moves.of_eq level drawn, supported⟩
    | some next => exact ⟨drawn, supported⟩
  | manyNext _ _ _ ih₁ ih₂ =>
    obtain ⟨knownPart, level⟩ := Rule.draw?_level known
    obtain ⟨moved, supported⟩ := ih₁ knownPart enough loud
    have risen := Stack.Moves.rises moved (Nat.le_of_eq level)
    obtain ⟨drawn, more⟩ := ih₂ known (Nat.le_trans enough risen) loud
    exact ⟨Drawn.again moved level drawn, supported.append more⟩
  | many1End _ _ ih =>
    obtain ⟨drawn, supported⟩ := ih (Rule.draw?_level known).1 enough loud
    exact ⟨drawn.as rfl, supported⟩
  | many1Next _ _ _ ih₁ ih₂ =>
    obtain ⟨knownPart, level⟩ := Rule.draw?_level known
    obtain ⟨moved, supported⟩ := ih₁ knownPart enough loud
    have risen := Stack.Moves.rises moved (Nat.le_of_eq level)
    obtain ⟨drawn, more⟩ := ih₂ known (Nat.le_trans enough risen) loud
    exact ⟨Drawn.again moved level drawn, supported.append more⟩
  | actionSilent | effectSilent => contradiction
  | actionEnd _ ends ih =>
    obtain ⟨drawn, supported⟩ := ih known enough loud
    exact ⟨drawn.ends ends, supported⟩
  | actionNext _ ih => exact ih known enough loud
  | effectEnd _ ends ih =>
    obtain ⟨d, knownPart, rfl⟩ := Rule.draw?_effect known
    obtain ⟨drawn, supported⟩ := ih knownPart (Nat.le_trans (Draw.need_andThen ..) enough) loud
    exact ⟨drawn.ends ends, supported⟩
  | effectStop _ _ ih =>
    obtain ⟨d, knownPart, rfl⟩ := Rule.draw?_effect known
    obtain ⟨moved, supported⟩ := ih knownPart (Nat.le_trans (Draw.need_andThen ..) enough) loud
    have high := Stack.Moves.enough_then moved enough
    exact ⟨trivial, supported.append (List.forall_mem_singleton.mpr high)⟩
  | effectNext _ done ih =>
    obtain ⟨d, knownPart, rfl⟩ := Rule.draw?_effect known
    obtain ⟨moved, supported⟩ := ih knownPart (Nat.le_trans (Draw.need_andThen ..) enough) loud
    have high := Stack.Moves.enough_then moved enough
    refine ⟨?_, supported.append (List.forall_mem_singleton.mpr high)⟩
    obtain ⟨span, applied⟩ := Performance.apply_of_outcome done
    exact Stack.Moves.andThen moved (Diagnostics.apply_moves applied stack high)
  | close _ ih =>
    obtain ⟨drawn, supported⟩ := ih known enough loud
    exact ⟨drawn.close, supported⟩

end Soundness

section Faults

variable {subject : Subject σ} {rule : Rule α} {stage : Stage} {pos : Nat} {s : Matching σ α}
  {t : List (Performance σ)} {r : Verdict σ α}

theorem Evaluates.ordered {silent : Bool} (bounded : subject.Bounded)
    (h : Evaluates subject stage rule silent pos s t r) (inside : pos ≤ subject.stop) :
    ∀ p ∈ t, p.start ≤ p.stop := by
  induction h with
  | leaf => exact List.forall_mem_nil _
  | seqEnd _ _ ih | choiceEnd _ _ ih | differenceEnd _ _ ih | optionalStop _ ih
  | optionalNext _ ih | manyStop _ ih | manyEnd _ _ ih | many1End _ _ ih | actionSilent _ ih
  | actionEnd _ _ ih | actionNext _ ih | effectSilent _ ih | effectEnd _ _ ih | close _ ih =>
    exact ih inside
  | choiceNext _ _ ih₁ ih₂ | differenceStop _ _ ih₁ ih₂ | differenceNext _ _ ih₁ ih₂ =>
    exact List.forall_mem_append.mpr ⟨ih₁ inside, ih₂ inside⟩
  | seqNext first _ ih₁ ih₂ | manyNext first _ _ ih₁ ih₂ | many1Next first _ _ ih₁ ih₂ =>
    exact List.forall_mem_append.mpr ⟨ih₁ inside, ih₂ (first.onward bounded inside).2⟩
  | effectStop part _ ih | effectNext part _ ih =>
    have here := (part.onward bounded inside).1
    exact List.forall_mem_append.mpr ⟨ih inside, List.forall_mem_singleton.mpr here⟩

/-- No effect is refused on a stack that is high enough for it. -/
theorem Diagnostics.refusal?_of_enough {m : Monitor σ} {e : Effect} {span : Span}
    {d : Diagnostics σ} (enough : (Stack.pending.draw e).need ≤ d.pending.depth) :
    refusal? m e span d = none := by
  cases e with
  | prepare | cancel => exact if_neg (Nat.ne_of_gt enough)
  | _ => rfl

theorem Diagnostics.apply_faultless {m : Monitor σ} (calm : m.Calm) {e : Effect}
    {d : Diagnostics σ} (span : Span) (high : (Stack.pending.draw e).need ≤ d.pending.depth) :
    Faultless (apply m e span d) := by
  refine apply_cases m e span d ?_ (fun _ => trivial) fun _ _ => send_faultless calm _ _
  intro fault refused
  cases (refusal?_of_enough high).symm.trans refused

theorem Performance.Supported.faultless {p : Performance σ} (supported : p.Supported)
    (calm : subject.monitor.Calm) (ordered : p.start ≤ p.stop) :
    Faultless (p.outcome subject) := by
  simp only [outcome, Span.between, if_pos ordered]
  exact Diagnostics.apply_faultless calm _ (supported .pending)

namespace Rule.Balanced

theorem supported (balanced : rule.Balanced) (h : Evaluates subject stage rule false pos s t r) :
    ∀ p ∈ t, p.Supported :=
  fun p member stack => (h.drawn (balanced stack) (Nat.zero_le _)).2 p member

theorem level {next : Nat} {s' : Matching σ α} (balanced : rule.Balanced)
    (h : Evaluates subject stage rule false pos s t (.ok (some next) s')) :
    s'.diagnostics.pending.depth = s.diagnostics.pending.depth :=
  (h.drawn (balanced .pending) (Nat.zero_le _)).1

/-- Only the sink can make a balanced rule stop with a fault. -/
theorem faultless (balanced : rule.Balanced) (calm : subject.monitor.Calm)
    (bounded : subject.Bounded) (h : Evaluates subject stage rule false pos s t r)
    (inside : pos ≤ subject.stop) : Faultless r := by
  have follows := h.follows
  rcases r with _ | ⟨stop, s'⟩
  · trivial
  · obtain ⟨u, p, rfl, -, stopped⟩ := follows
    have member : p ∈ u ++ [p] := List.mem_append_right u (List.mem_singleton_self p)
    have performed := (balanced.supported h p member).faultless calm
      (h.ordered bounded inside p member)
    rw [stopped] at performed
    cases stop with
    | aborted errors => trivial
    | fault fault => exact performed

end Rule.Balanced

end Faults

end Backtrack
