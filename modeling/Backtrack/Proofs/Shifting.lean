import Backtrack.Proofs.Displacement
import Backtrack.Proofs.Pairing
import Backtrack.Proofs.Parsing

/-! Two ranges that hold the same bytes. A rule does the same in both: it matches as far, and
performs the same effects on diagnostics that differ in offsets and in what the line tables make of
them alone. `R` relates the two positions of a place that the ranges share, and `W` the states of
two callers who have been sent messages that differ no further. -/
namespace Backtrack

variable {σ τ α β γ : Type} {R : Position → Position → Prop} {W : σ → τ → Prop}

/-- Two line numbers of one place. -/
def SameLine (R : Position → Position → Prop) (line line' : Nat) : Prop :=
  ∃ p p', R p p' ∧ line = p.line ∧ line' = p'.line

structure Entry.Shifted (R : Position → Position → Prop) (e e' : Entry) : Prop where
  message : e.message = e'.message
  line : SameLine R e.line e'.line

/-- Abandoned at one place, when the ranges begin at `base` and `base'`. -/
structure Abandoned.Shifted (R : Position → Position → Prop) (base base' : Nat)
    (a a' : Abandoned) : Prop where
  entry : a.entry.Shifted R a'.entry
  height : a.height = a'.height
  start : a.start + base' = a'.start + base
  claimed : a.claimed = a'.claimed

structure Breadcrumb.Shifted (R : Position → Position → Prop) (c c' : Breadcrumb) : Prop where
  label : c.label = c'.label
  name : c.name = c'.name
  position : ∃ p p', R p p' ∧ c.position = some p ∧ c'.position = some p'

/-- One message at one place. The text of a message that names a scope holds the position where the
scope begins. -/
structure Notice.Shifted (R : Position → Position → Prop) (n n' : Notice) : Prop where
  level : n.level = n'.level
  origin : n.origin = n'.origin
  line : n.line = 0 ∧ n'.line = 0 ∨ SameLine R n.line n'.line
  text : n.text = n'.text ∨
    ∃ c c' : Breadcrumb, c.Shifted R c' ∧ n.text = c.render ∧ n'.text = c'.render

/-- One broken promise, told at one place. -/
inductive Fault.Shifted (R : Position → Position → Prop) : Fault → Fault → Prop where
  | nothingToPrepare (text) : Shifted R (.nothingToPrepare text) (.nothingToPrepare text)
  | nothingToCancel {line line'} : SameLine R line line' →
      Shifted R (.nothingToCancel line) (.nothingToCancel line')
  | pendingAfterMatch : Shifted R .pendingAfterMatch .pendingAfterMatch

inductive Stop.Shifted (R : Position → Position → Prop) : Stop → Stop → Prop where
  | aborted (errors) : Shifted R (.aborted errors) (.aborted errors)
  | fault {f f'} : f.Shifted R f' → Shifted R (.fault f) (.fault f')

structure Pending.Shifted (R : Position → Position → Prop) (base base' : Nat)
    (p p' : Pending) : Prop where
  stack : List.Forall₂ (Entry.Shifted R) p.stack.toList p'.stack.toList
  abandoned : List.Forall₂ (Abandoned.Shifted R base base') p.abandoned.toList p'.abandoned.toList

/-- Diagnostics of two ranges at one point of their matches, with a sink attached. -/
structure Diagnostics.Shifted (R : Position → Position → Prop) (W : σ → τ → Prop)
    (base base' : Nat) (d : Diagnostics σ) (d' : Diagnostics τ) : Prop where
  pending : d.pending.Shifted R base base' d'.pending
  crumbs : List.Forall₂ (Breadcrumb.Shifted R) d.crumbs.scopes.toList d'.crumbs.scopes.toList
  report : d.report = d'.report
  last : d.last = d'.last
  attached : d.detached = false
  attached' : d'.detached = false
  world : W d.world d'.world

/-- Two operations end alike: both with results related by `Q`, or both for one reason. -/
inductive Abreast {A B : Type} (R : Position → Position → Prop) (Q : β → γ → Prop)
    (S : A → B → Prop) : EStateM.Result Stop A β → EStateM.Result Stop B γ → Prop where
  | ok {b c s s'} : Q b c → S s s' → Abreast R Q S (.ok b s) (.ok c s')
  | error {e e' s s'} : e.Shifted R e' → S s s' → Abreast R Q S (.error e s) (.error e' s')

theorem Abreast.bind {A B β' γ' : Type} {Q : β → γ → Prop} {Q' : β' → γ' → Prop} {S : A → B → Prop}
    {x : EStateM Stop A β} {y : EStateM Stop B γ} {f : β → EStateM Stop A β'}
    {g : γ → EStateM Stop B γ'} {s : A} {s' : B} (first : Abreast R Q S (x s) (y s'))
    (rest : ∀ b c s s', Q b c → S s s' → Abreast R Q' S (f b s) (g c s')) :
    Abreast R Q' S ((x >>= f) s) ((y >>= g) s') := by
  rw [bind_apply, bind_apply]
  generalize x s = r at first
  generalize y s' = r' at first
  cases first with
  | ok results states => exact rest _ _ _ _ results states
  | error stops states => exact .error stops states

theorem Abreast.forM {A B ι κ : Type} {T : ι → κ → Prop} {S : A → B → Prop}
    {f : ι → EStateM Stop A PUnit} {g : κ → EStateM Stop B PUnit}
    (each : ∀ i k s s', T i k → S s s' → Abreast R (fun _ _ => True) S (f i s) (g k s'))
    {items : List ι} {items' : List κ} (same : List.Forall₂ T items items') {s : A} {s' : B}
    (states : S s s') :
    Abreast R (fun _ _ => True) S (items.forM f s) (items'.forM g s') := by
  induction same generalizing s s' with
  | nil => exact .ok trivial states
  | cons first _ ih => exact (each _ _ _ _ first states).bind fun _ _ _ _ _ states => ih states

/-- The messages of two monitors reach callers who stay related, and who never refuse one. -/
structure Monitor.Shifted (R : Position → Position → Prop) (W : σ → τ → Prop) (m : Monitor σ)
    (m' : Monitor τ) : Prop where
  budget : m.budget = m'.budget
  sink : ∀ world world' n n', W world world' → n.Shifted R n' →
    (m.sink world n).2 = .keep ∧ (m'.sink world' n').2 = .keep ∧
      W (m.sink world n).1 (m'.sink world' n').1

namespace Pending

variable {base base' : Nat} {p p' : Pending}

theorem shifted_iff :
    p.Shifted R base base' p' ↔ p.Paired (Entry.Shifted R) base base' [] [] p' := by
  have each : Abandoned.Paired (Entry.Shifted R) base base' = Abandoned.Shifted R base base' := by
    funext a a'
    exact propext ⟨fun ⟨e, h, s, c⟩ => ⟨e, h, s, c⟩, fun ⟨e, h, s, c⟩ => ⟨e, h, s, c⟩⟩
  constructor
  · intro ⟨stack, abandoned⟩
    exact ⟨rfl, ⟨_, _, rfl, rfl, stack⟩, each ▸ abandoned⟩
  · intro ⟨_, ⟨_, _, whole, whole', stack⟩, abandoned⟩
    rw [List.nil_append] at whole whole'
    exact ⟨whole ▸ whole' ▸ stack, each ▸ abandoned⟩

namespace Shifted

theorem depth (h : p.Shifted R base base' p') : p.depth = p'.depth := (shifted_iff.mp h).depth

theorem push (h : p.Shifted R base base' p') {e e' : Entry} (entry : e.Shifted R e') :
    (p.push e).Shifted R base base' (p'.push e') :=
  shifted_iff.mpr ((shifted_iff.mp h).push entry)

/-- The entries on top, if the stacks are not empty. -/
theorem top (h : p.Shifted R base base' p') :
    p.stack.back? = none ∧ p'.stack.back? = none ∨
    ∃ e e', e.Shifted R e' ∧ p.stack.back? = some e ∧ p'.stack.back? = some e' ∧
      p.pop.Shifted R base base' p'.pop := by
  by_cases empty : p.depth = 0
  · have empty' : p'.depth = 0 := h.depth ▸ empty
    exact .inl ⟨Array.back?_eq_none_iff.mpr (Array.size_eq_zero_iff.mp empty),
      Array.back?_eq_none_iff.mpr (Array.size_eq_zero_iff.mp empty')⟩
  · obtain ⟨e, e', entry, here, here', popped⟩ :=
      (shifted_iff.mp h).top (Nat.pos_of_ne_zero empty)
    exact .inr ⟨e, e', entry, here, here', shifted_iff.mpr popped⟩

theorem pop (h : p.Shifted R base base' p') (filled : p.depth ≠ 0) :
    p.pop.Shifted R base base' p'.pop :=
  shifted_iff.mpr ((shifted_iff.mp h).pop (Nat.pos_of_ne_zero filled))

theorem abandonFrom (h : p.Shifted R base base' p') (depth k : Nat) :
    (p.abandonFrom depth (base + k)).Shifted R base base' (p'.abandonFrom depth (base' + k)) :=
  shifted_iff.mpr ((shifted_iff.mp h).abandonFrom (Nat.zero_le depth) k)

theorem settle (h : p.Shifted R base base' p') (count : Nat) :
    Shifted R base base' { p with abandoned := p.abandoned.shrink count }
      { p' with abandoned := p'.abandoned.shrink count } :=
  shifted_iff.mpr ((shifted_iff.mp h).settle count)

theorem claim? (h : p.Shifted R base base' p') (k : Nat) :
    p.claim? (base + k) = none ∧ p'.claim? (base' + k) = none ∨
    ∃ e e' q q', e.Shifted R e' ∧ q.Shifted R base base' q' ∧
      p.claim? (base + k) = some (e, q) ∧ p'.claim? (base' + k) = some (e', q') := by
  obtain unclaimed | ⟨e, e', q, q', entry, rest, found⟩ := (shifted_iff.mp h).claim? k
  · exact .inl unclaimed
  · exact .inr ⟨e, e', q, q', entry, shifted_iff.mpr rest, found⟩

end Shifted
end Pending

namespace Diagnostics

variable {base base' : Nat} {d : Diagnostics σ} {d' : Diagnostics τ} {m : Monitor σ}
  {m' : Monitor τ}

theorem Shifted.with_pending (h : d.Shifted R W base base' d') {p p' : Pending}
    (pending : p.Shifted R base base' p') :
    Shifted R W base base' { d with pending := p } { d' with pending := p' } :=
  { h with pending }

theorem Shifted.mark (h : d.Shifted R W base base' d') : d.mark = d'.mark := by
  have stack := h.pending.stack.length_eq
  have abandoned := h.pending.abandoned.length_eq
  have crumbs := h.crumbs.length_eq
  simp only [Array.length_toList] at stack abandoned crumbs
  simp only [Diagnostics.mark, Breadcrumbs.depth, stack, abandoned, crumbs]

theorem Shifted.settle (h : d.Shifted R W base base' d') (mark : DiagnosticMark) :
    (d.settle mark).Shifted R W base base' (d'.settle mark) :=
  h.with_pending (h.pending.settle mark.abandoned)

theorem Shifted.rewind (h : d.Shifted R W base base' d') (mark : DiagnosticMark) (k : Nat) :
    (d.rewind mark (base + k)).Shifted R W base base' (d'.rewind mark (base' + k)) := by
  refine { h with pending := h.pending.abandonFrom mark.depth k, crumbs := ?_ }
  simp only [Diagnostics.rewind, Breadcrumbs.truncate, Array.shrink_eq_take, Array.toList_extract,
    List.extract_eq_take_drop]
  exact List.forall₂_take _ (List.forall₂_drop _ h.crumbs)

theorem Shifted.top (h : d.Shifted R W base base' d') :
    d.crumbs.top? = none ∧ d'.crumbs.top? = none ∨
    ∃ c c', c.Shifted R c' ∧ d.crumbs.top? = some c ∧ d'.crumbs.top? = some c' := by
  have last := List.forall₂_reverse_iff.mpr h.crumbs
  simp only [Breadcrumbs.top?, ← Array.getLast?_toList, List.getLast?_eq_head?_reverse]
  generalize d.crumbs.scopes.toList.reverse = scopes at last
  generalize d'.crumbs.scopes.toList.reverse = scopes' at last
  cases last with
  | nil => exact .inl ⟨rfl, rfl⟩
  | cons first rest => exact .inr ⟨_, _, first, rfl, rfl⟩

theorem deliver_shifted (monitors : m.Shifted R W m') {n n' : Notice} (notices : n.Shifted R n')
    (h : d.Shifted R W base base' d') :
    Abreast R (fun _ _ => True) (Shifted R W base base') (deliver m n d) (deliver m' n' d') := by
  obtain ⟨kept, kept', world⟩ := monitors.sink _ _ n n' h.world notices
  unfold deliver
  rw [h.attached, h.attached']
  generalize m.sink d.world n = sent at kept world
  generalize m'.sink d'.world n' = sent' at kept' world
  obtain ⟨_, _⟩ := sent
  obtain ⟨_, _⟩ := sent'
  cases kept
  cases kept'
  exact .ok trivial { h with world, attached := rfl, attached' := rfl }

theorem introduce_shifted (monitors : m.Shifted R W m') {n n' : Notice} (notices : n.Shifted R n')
    (h : d.Shifted R W base base' d') :
    Abreast R (fun _ _ => True) (Shifted R W base base') (introduce m n d)
      (introduce m' n' d') := by
  unfold introduce
  rw [notices.level]
  cases n'.level.isError with
  | false => exact .ok trivial h
  | true =>
    obtain ⟨none, none'⟩ | ⟨c, c', crumbs, top, top'⟩ := h.top
    · rw [none, none']
      exact .ok trivial h
    · rw [top, top']
      exact deliver_shifted monitors ⟨rfl, rfl, notices.line, .inr ⟨c, c', crumbs, rfl, rfl⟩⟩ h

/-- The text that is kept for the closing pair is never that of a message that names a scope. -/
theorem charge_shifted (monitors : m.Shifted R W m') {n n' : Notice} (notices : n.Shifted R n')
    (text : n.text = n'.text) (h : d.Shifted R W base base' d') :
    Abreast R (fun _ _ => True) (Shifted R W base base') (charge m n d) (charge m' n' d') := by
  have charged : (d.charged n).Shifted R W base base' (d'.charged n') :=
    { h with
      report := by simp only [Diagnostics.charged, h.report, notices.level]
      last := congrArg some text }
  rw [charge_eq, charge_eq, notices.level, monitors.budget, charged.report]
  split
  · exact .error (.aborted _) charged
  · exact .ok trivial charged

theorem send_shifted (monitors : m.Shifted R W m') {n n' : Notice} (notices : n.Shifted R n')
    (text : n.text = n'.text) (h : d.Shifted R W base base' d') :
    Abreast R (fun _ _ => True) (Shifted R W base base') (send m n d) (send m' n' d') :=
  (introduce_shifted monitors notices h).bind fun _ _ _ _ _ h =>
    (deliver_shifted monitors notices h).bind fun _ _ _ _ _ h =>
      charge_shifted monitors notices text h

theorem notice_shifted {e e' : Entry} (h : e.Shifted R e') : e.notice.Shifted R e'.notice :=
  ⟨congrArg Message.level h.message, congrArg Message.origin h.message, .inr h.line,
    .inl (congrArg Message.text h.message)⟩

theorem send_entry_shifted (monitors : m.Shifted R W m') {e e' : Entry} (entries : e.Shifted R e')
    (h : d.Shifted R W base base' d') :
    Abreast R (fun _ _ => True) (Shifted R W base base') (send m e.notice d)
      (send m' e'.notice d') :=
  send_shifted monitors (notice_shifted entries) (congrArg Message.text entries.message) h

/-- An effect on two spans that begin at one place and have one text. -/
theorem apply_shifted (monitors : m.Shifted R W m') {k : Nat} {span span' : Span}
    (start : span.start = base + k) (start' : span'.start = base' + k)
    (text : span.text = span'.text)
    (place : R (m.lines.position span.start) (m'.lines.position span'.start)) (e : Effect)
    (h : d.Shifted R W base base' d') :
    Abreast R (fun _ _ => True) (Shifted R W base base') (apply m e span d)
      (apply m' e span' d') := by
  have line : SameLine R (m.lines.line span.start) (m'.lines.line span'.start) :=
    ⟨_, _, place, rfl, rfl⟩
  have crumb (label : String) : (crumbAt m label span).Shifted R (crumbAt m' label span') :=
    ⟨rfl, text, _, _, place, rfl, rfl⟩
  have opened (label : String) {scopes : Array Breadcrumb} {scopes' : Array Breadcrumb}
      (same : List.Forall₂ (Breadcrumb.Shifted R) scopes.toList scopes'.toList) :
      List.Forall₂ (Breadcrumb.Shifted R) (scopes.push (crumbAt m label span)).toList
        (scopes'.push (crumbAt m' label span')).toList := by
    simp only [Array.toList_push]
    exact List.rel_append same (.cons (crumb label) .nil)
  have closed : List.Forall₂ (Breadcrumb.Shifted R) d.crumbs.scopes.pop.toList
      d'.crumbs.scopes.pop.toList := by
    simp only [Array.toList_pop, List.dropLast_eq_take, h.crumbs.length_eq]
    exact List.forall₂_take _ h.crumbs
  cases e with
  | push message => exact .ok trivial (h.with_pending (h.pending.push ⟨rfl, line⟩))
  | prepare message =>
    simp only [apply, ← h.pending.depth]
    split
    · exact .error (.fault (.nothingToPrepare _)) h
    next filled => exact .ok trivial (h.with_pending ((h.pending.pop filled).push ⟨rfl, line⟩))
  | cancel =>
    simp only [apply, ← h.pending.depth]
    split
    · exact .error (.fault (.nothingToCancel line)) h
    next filled => exact .ok trivial (h.with_pending (h.pending.pop filled))
  | pop =>
    obtain ⟨none, none'⟩ | ⟨_, _, entries, top, top', popped⟩ := h.pending.top
    · simp only [apply, none, none']
      exact .ok trivial h
    · simp only [apply, top, top']
      exact send_entry_shifted monitors entries (h.with_pending popped)
  | popAbandoned =>
    simp only [apply, start, start']
    obtain ⟨none, none'⟩ | ⟨_, _, _, _, entries, pending, found, found'⟩ := h.pending.claim? k
    · simp only [none, none']
      exact .ok trivial h
    · simp only [found, found']
      exact send_entry_shifted monitors entries (h.with_pending pending)
  | sendNow message => exact send_shifted monitors ⟨rfl, rfl, .inr line, .inl rfl⟩ rfl h
  | enterScope label => exact .ok trivial { h with crumbs := opened label h.crumbs }
  | leaveScope => exact .ok trivial { h with crumbs := closed }
  | replaceScope label => exact .ok trivial { h with crumbs := opened label closed }

theorem flushAbandoned_shifted (monitors : m.Shifted R W m') (h : d.Shifted R W base base' d') :
    Abreast R (fun _ _ => True) (Shifted R W base base') (flushAbandoned m d)
      (flushAbandoned m' d') := by
  change Abreast R _ _
    ((d.pending.abandoned.toList.filter (!·.claimed)).forM (fun a => send m a.entry.notice)
      { d with pending.abandoned := #[] })
    ((d'.pending.abandoned.toList.filter (!·.claimed)).forM (fun a => send m' a.entry.notice)
      { d' with pending.abandoned := #[] })
  refine Abreast.forM (T := Abandoned.Shifted R base base') ?_ ?_
    (h.with_pending ⟨h.pending.stack, .nil⟩)
  · intro a a' d d' same h
    exact send_entry_shifted monitors same.entry h
  · refine List.rel_filter ?_ h.pending.abandoned
    intro a a' same
    simp [same.claimed]

theorem announceAbort_shifted (monitors : m.Shifted R W m') (restatement : Option String)
    (h : d.Shifted R W base base' d') :
    Abreast R (fun _ _ => True) (Shifted R W base base') (announceAbort m restatement d)
      (announceAbort m' restatement d') := by
  have closing (text : String) : Notice.Shifted R ⟨.fatal text, 0⟩ ⟨.fatal text, 0⟩ :=
    ⟨rfl, rfl, .inl ⟨rfl, rfl⟩, .inl rfl⟩
  have last : d.last.getD "" = d'.last.getD "" := congrArg (·.getD "") h.last
  refine Abreast.bind (Q := fun e e' => e.last.getD "" = e'.last.getD "") (.ok last h) ?_
  intro e e' d d' last h
  refine Abreast.bind (Q := fun _ _ => True) (.ok trivial { h with last := rfl }) ?_
  intro _ _ d d' _ h
  rw [last]
  refine (deliver_shifted monitors (closing _) h).bind fun _ _ d d' _ h => ?_
  refine (deliver_shifted monitors (closing _) h).bind fun _ _ d d' _ h => ?_
  refine .ok trivial { h with report := ?_ }
  simp only [h.report]

end Diagnostics

/-- States of two matches that differ in their journals and as their ranges do. -/
def Matching.Shifted (R : Position → Position → Prop) (W : σ → τ → Prop) (base base' : Nat)
    (s : Matching σ α) (s' : Matching τ α) : Prop :=
  s.diagnostics.Shifted R W base base' s'.diagnostics

theorem Abreast.on_diagnostics {base base' : Nat} {Q : β → γ → Prop} {op : Diagnosing σ β}
    {op' : Diagnosing τ γ} {s : Matching σ α} {s' : Matching τ α}
    (h : Abreast R Q (Diagnostics.Shifted R W base base') (op s.diagnostics)
      (op' s'.diagnostics)) :
    Abreast R Q (Matching.Shifted R W base base') (Matching.onDiagnostics op s)
      (Matching.onDiagnostics op' s') := by
  simp only [Matching.onDiagnostics]
  generalize op s.diagnostics = r at h
  generalize op' s'.diagnostics = r' at h
  cases h with
  | ok results states => exact .ok results states
  | error stops states => exact .error stops states

end Backtrack
