import Backtrack.Proofs.Dictation
import Backtrack.Proofs.Pairing

/-! Two scribes side by side. Each keeps every message; the messages of the one face those of the
other one by one, with one level and one line, whatever their texts say. As long as the two send
such messages they spend their budgets alike, so both go on or both give up. -/
namespace Backtrack

variable {α β γ : Type} {low low' : List Entry}

/-- Messages of one level about one line. -/
def Notice.Alike (n n' : Notice) : Prop := n.level = n'.level ∧ n.line = n'.line

def Entry.Alike (e e' : Entry) : Prop := e.notice.Alike e'.notice

/-- Effects of one kind, whose messages have one level. -/
inductive Effect.Alike : Effect → Effect → Prop where
  | push {m m'} : m.level = m'.level → Alike (.push m) (.push m')
  | prepare {m m'} : m.level = m'.level → Alike (.prepare m) (.prepare m')
  | cancel : Alike .cancel .cancel
  | pop : Alike .pop .pop
  | popAbandoned : Alike .popAbandoned .popAbandoned
  | sendNow {m m'} : m.level = m'.level → Alike (.sendNow m) (.sendNow m')
  | enterScope (label label') : Alike (.enterScope label) (.enterScope label')
  | leaveScope : Alike .leaveScope .leaveScope
  | replaceScope (label label') : Alike (.replaceScope label) (.replaceScope label')

theorem Effect.Alike.refl (e : Effect) : e.Alike e := by
  cases e <;> constructor <;> rfl

/-- What two scribes have been told so far. -/
structure Diagnostics.Echoes (d d' : Diagnostics (List Notice)) : Prop where
  crumbs : d.crumbs.depth = d'.crumbs.depth
  report : d.report = d'.report
  attached : d.detached = false
  attached' : d'.detached = false
  world : List.Forall₂ Notice.Alike d.world d'.world

/-- Two scribes with messages waiting, which face each other above a floor. -/
structure Diagnostics.Facing (low low' : List Entry) (d d' : Diagnostics (List Notice)) : Prop
    extends Echoes d d' where
  pending : d.pending.Paired Entry.Alike 0 0 low low' d'.pending

/-- Two operations with one result, which leave states that `S` relates, or with budgets that are
used up at one number of errors, in states that `T` relates. -/
inductive InStep {A B : Type} (S T : A → B → Prop) :
    EStateM.Result Stop A β → EStateM.Result Stop B β → Prop where
  | ok {b s s'} : S s s' → InStep S T (.ok b s) (.ok b s')
  | aborted {errors s s'} : T s s' →
      InStep S T (.error (.aborted errors) s) (.error (.aborted errors) s')

namespace InStep

variable {A B : Type} {S S' T : A → B → Prop}

theorem bind {x : EStateM Stop A β} {y : EStateM Stop B β} {f : β → EStateM Stop A γ}
    {g : β → EStateM Stop B γ} {s : A} {s' : B} (first : InStep S T (x s) (y s'))
    (rest : ∀ b s s', S s s' → InStep S' T (f b s) (g b s')) :
    InStep S' T ((x >>= f) s) ((y >>= g) s') := by
  rw [bind_apply, bind_apply]
  generalize x s = r at first
  generalize y s' = r' at first
  cases first with
  | ok states => exact rest _ _ _ states
  | aborted states => exact .aborted states

theorem forM {ι κ : Type} {R : ι → κ → Prop} {f : ι → EStateM Stop A PUnit}
    {g : κ → EStateM Stop B PUnit}
    (each : ∀ i k s s', R i k → S s s' → InStep S T (f i s) (g k s')) {items : List ι}
    {items' : List κ} (same : List.Forall₂ R items items') {s : A} {s' : B} (states : S s s') :
    InStep S T (items.forM f s) (items'.forM g s') := by
  induction same generalizing s s' with
  | nil => exact .ok states
  | cons first _ ih => exact (each _ _ _ _ first states).bind fun _ _ _ states => ih states

end InStep

/-- The monitors of two scribes with one budget and one table of lines. -/
structure Monitor.Faces (m m' : Monitor (List Notice)) : Prop where
  scribes : m.Scribes
  scribes' : m'.Scribes
  budget : m.budget = m'.budget
  lines : m.lines = m'.lines

namespace Diagnostics

variable {m m' : Monitor (List Notice)} {d d' : Diagnostics (List Notice)} {n n' : Notice}

/-- Both introduce the message, or neither. -/
theorem Echoes.packet (h : d.Echoes d') (notices : n.Alike n') :
    List.Forall₂ Notice.Alike (d.crumbs.packet n) (d'.crumbs.packet n') := by
  have scopes : d.crumbs.scopes.size = d'.crumbs.scopes.size := h.crumbs
  refine List.rel_append ?_ (.cons notices .nil)
  simp only [Breadcrumbs.introduction, Breadcrumbs.top?, Array.back?_eq_getElem?, scopes,
    notices.1]
  cases n'.level.isError with
  | false => exact .nil
  | true =>
    by_cases inside : d'.crumbs.scopes.size - 1 < d'.crumbs.scopes.size
    · have inside' : d'.crumbs.scopes.size - 1 < d.crumbs.scopes.size := by omega
      simp only [Array.getElem?_eq_getElem inside, Array.getElem?_eq_getElem inside']
      exact .cons ⟨rfl, notices.2⟩ .nil
    · have outside : d.crumbs.scopes.size ≤ d'.crumbs.scopes.size - 1 := by omega
      simp only [Array.getElem?_eq_none outside, Array.getElem?_eq_none (Nat.le_of_not_lt inside)]
      exact .nil

theorem Echoes.charged (h : d.Echoes d') (level : n.level = n'.level) :
    (d.charged n).Echoes (d'.charged n') :=
  { h with report := by simp only [Diagnostics.charged, h.report, level] }

theorem Facing.with_pending (h : d.Facing low low' d') {p p' : Pending}
    (pending : p.Paired Entry.Alike 0 0 low low' p') :
    Facing low low' { d with pending := p } { d' with pending := p' } :=
  { h with pending }

theorem Facing.mark (h : d.Facing low low' d') : d.mark = d'.mark := by
  have stack : d.pending.stack.size = d'.pending.stack.size := h.pending.depth
  have abandoned := h.pending.abandoned.length_eq
  have crumbs := h.crumbs
  simp only [Array.length_toList] at abandoned
  simp only [Diagnostics.mark, stack, abandoned, crumbs]

theorem send_facing (monitors : m.Faces m') (notices : n.Alike n') (h : d.Facing low low' d') :
    InStep (Facing low low') Echoes (send m n d) (send m' n' d') := by
  rw [send_eq monitors.scribes h.attached, send_eq monitors.scribes' h.attached', charge_eq,
    charge_eq]
  have written : Echoes { d with world := d.world ++ d.crumbs.packet n }
      { d' with world := d'.world ++ d'.crumbs.packet n' } :=
    { h with world := List.rel_append h.world (h.packet notices) }
  have charged := written.charged notices.1
  rw [charged.report, notices.1, monitors.budget]
  split
  · exact .aborted charged
  · exact .ok { charged with pending := h.pending }

/-- Effects of one kind on spans that begin at one place, above the floor. -/
theorem apply_facing (monitors : m.Faces m') {e e' : Effect} (effects : e.Alike e')
    {span span' : Span} (start : span.start = span'.start) (h : d.Facing low low' d')
    (enough : low.length + (Stack.pending.draw e).need ≤ d.pending.depth) :
    InStep (Facing low low') Echoes (apply m e span d) (apply m' e' span' d') := by
  have line : m.lines.line span.start = m'.lines.line span'.start := by
    rw [monitors.lines, start]
  have depth := h.pending.depth
  have crumbs : d.crumbs.scopes.size = d'.crumbs.scopes.size := h.crumbs
  cases effects with
  | push level => exact .ok (h.with_pending (h.pending.push ⟨level, line⟩))
  | prepare level =>
    have above : low.length < d.pending.depth := enough
    simp only [apply]
    rw [if_neg (by omega), if_neg (by omega)]
    exact .ok (h.with_pending ((h.pending.pop above).push ⟨level, line⟩))
  | cancel =>
    have above : low.length < d.pending.depth := enough
    simp only [apply]
    rw [if_neg (by omega), if_neg (by omega)]
    exact .ok (h.with_pending (h.pending.pop above))
  | pop =>
    obtain ⟨e, e', entries, top, top', popped⟩ := h.pending.top enough
    simp only [apply, top, top']
    exact send_facing monitors entries (h.with_pending popped)
  | popAbandoned =>
    have claims := h.pending.claim? span'.start
    rw [Nat.zero_add] at claims
    simp only [apply, start]
    obtain ⟨none, none'⟩ | ⟨e, e', q, q', entries, pending, found, found'⟩ := claims
    · simp only [none, none']
      exact .ok h
    · simp only [found, found']
      exact send_facing monitors entries (h.with_pending pending)
  | sendNow level => exact send_facing monitors ⟨level, line⟩ h
  | enterScope =>
    exact .ok { h with crumbs := by simp [Breadcrumbs.depth, Breadcrumbs.push, crumbs] }
  | leaveScope =>
    exact .ok { h with crumbs := by simp [Breadcrumbs.depth, Breadcrumbs.pop, crumbs] }
  | replaceScope =>
    exact .ok { h with
      crumbs := by simp [Breadcrumbs.depth, Breadcrumbs.replace, Breadcrumbs.push,
        Breadcrumbs.pop, crumbs] }

theorem Facing.settle (h : d.Facing low low' d') (mark : DiagnosticMark) :
    (d.settle mark).Facing low low' (d'.settle mark) :=
  h.with_pending (h.pending.settle mark.abandoned)

theorem Facing.rewind (h : d.Facing low low' d') {mark : DiagnosticMark}
    (above : low.length ≤ mark.depth) (start : Nat) :
    (d.rewind mark start).Facing low low' (d'.rewind mark start) := by
  have abandons := h.pending.abandonFrom above start
  rw [Nat.zero_add] at abandons
  refine { h with pending := abandons, crumbs := ?_ }
  have scopes : d.crumbs.scopes.size = d'.crumbs.scopes.size := h.crumbs
  simp [Diagnostics.rewind, Breadcrumbs.truncate, Breadcrumbs.depth, scopes]

theorem flushAbandoned_facing (monitors : m.Faces m') (h : d.Facing low low' d') :
    InStep (Facing low low') Echoes (flushAbandoned m d) (flushAbandoned m' d') := by
  change InStep _ _
    ((d.pending.abandoned.toList.filter (!·.claimed)).forM (fun a => send m a.entry.notice)
      { d with pending.abandoned := #[] })
    ((d'.pending.abandoned.toList.filter (!·.claimed)).forM (fun a => send m' a.entry.notice)
      { d' with pending.abandoned := #[] })
  refine InStep.forM (R := Abandoned.Paired Entry.Alike 0 0) ?_ ?_
    (h.with_pending ⟨h.pending.floor, h.pending.stack, .nil⟩)
  · intro a a' d d' same h
    exact send_facing monitors same.entry h
  · refine List.rel_filter ?_ h.pending.abandoned
    intro a a' same
    simp [same.claimed]

theorem deliver_echoes (monitors : m.Faces m') (notices : n.Alike n') (h : d.Echoes d') :
    InStep Echoes Echoes (deliver m n d) (deliver m' n' d') := by
  rw [deliver_scribed monitors.scribes h.attached, deliver_scribed monitors.scribes' h.attached']
  exact .ok { h with world := List.rel_append h.world (.cons notices .nil) }

/-- The closing pair may repeat different texts. -/
theorem announceAbort_echoes (monitors : m.Faces m') (restatement : Option String)
    (h : d.Echoes d') :
    InStep Echoes Echoes (announceAbort m restatement d) (announceAbort m' restatement d') := by
  have closing (text text' : String) : Notice.Alike ⟨.fatal text, 0⟩ ⟨.fatal text', 0⟩ := ⟨rfl, rfl⟩
  let rest (m : Monitor (List Notice)) (last : String) : Diagnosing (List Notice) Unit := do
    deliver m ⟨.fatal "Too many errors found. Stopping parsing.", 0⟩
    deliver m ⟨.fatal (restatement.getD last), 0⟩
    modify fun d => { d with report.highest := max d.report.highest .fatal }
  change InStep _ _ (rest m (d.last.getD "") { d with last := none })
    (rest m' (d'.last.getD "") { d' with last := none })
  have silenced : Echoes { d with last := none } { d' with last := none } := { h with }
  refine (deliver_echoes monitors (closing _ _) silenced).bind fun _ _ _ h => ?_
  refine (deliver_echoes monitors (closing _ _) h).bind fun _ _ _ h => ?_
  exact .ok { h with report := by simp only [h.report] }

end Diagnostics
end Backtrack
