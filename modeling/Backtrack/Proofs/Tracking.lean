import Backtrack.Proofs.Facing
import Backtrack.Proofs.Legible
import Backtrack.Proofs.Openings

/-! Matches of two scribes side by side. One rule tracks another if at every place it matches as far
in its own subject, with a journal that differs by `turn` alone and with messages that face those of
the other. Every combinator carries this from its parts to the whole. Two alternatives that begin
apart may change places, and a message may differ in its level where another takes its place
whatever happens. -/
namespace Backtrack

open Outlook (Allows)

variable {α : Type} {turn : α → α} {low low' : List Entry}

/-- An event with its action turned. -/
def Event.turned (turn : α → α) : Event α → Event α
  | .placeholder => .placeholder
  | .action a start stop nested => .action (turn a) start stop nested

/-- Two matches at one point. -/
structure Matching.Facing (turn : α → α) (low low' : List Entry)
    (s s' : Matching (List Notice) α) : Prop where
  events : s'.events = s.events.map (Event.turned turn)
  diagnostics : s.diagnostics.Facing low low' s'.diagnostics

/-- Two verdicts of one place, or two budgets that are used up. -/
def Judged (turn : α → α) (low low' : List Entry) (r r' : Verdict (List Notice) α) : Prop :=
  InStep (Matching.Facing turn low low') (fun s s' => s.diagnostics.Echoes s'.diagnostics) r r'

/-- Two subjects of one length, each with its scribe. -/
structure Subject.Faces (subject subject' : Subject (List Notice)) : Prop where
  stop : subject.stop = subject'.stop
  bounded : subject.Bounded
  bounded' : subject'.Bounded
  monitors : subject.monitor.Faces subject'.monitor

namespace InStep

variable {A B β : Type} {S T : A → B → Prop} {s : A} {r' : EStateM.Result Stop B β}

theorem finished {b : β} (h : InStep S T (.ok b s) r') : ∃ s', r' = .ok b s' ∧ S s s' := by
  cases h with
  | ok states => exact ⟨_, rfl, states⟩

theorem stopped {stop : Stop} (h : InStep S T (.error stop s) r') :
    ∃ s', r' = .error stop s' ∧ T s s' := by
  cases h with
  | aborted states => exact ⟨_, rfl, states⟩

end InStep

namespace Judged

variable {r r' : Verdict (List Notice) α}

theorem position? (h : Judged turn low low' r r') : r'.position? = r.position? := by
  cases h <;> rfl

theorem unmatched {m : Option Nat} (h : Judged turn low low' r r') (ends : ∀ s, r ≠ .ok m s) (s') :
    r' ≠ .ok m s' := by
  rintro rfl
  cases h with
  | ok => exact ends _ rfl

/-- The ends of two attempts that began level with each other, on this floor or on a higher one. -/
theorem close (h : Judged turn low low' r r') {upper upper' : List Entry}
    {s s' : Matching (List Notice) α} (facing : s.Facing turn upper upper' s')
    (above : low.length ≤ upper.length) (pos : Nat) :
    Judged turn low low' (s.close pos r) (s'.close pos r') := by
  have marks := facing.diagnostics.mark
  have floor := facing.diagnostics.pending.floor_le
  cases h with
  | @ok b s₁ s₁' states =>
    cases b with
    | none =>
      refine .ok ⟨?_, ?_⟩
      · simp [states.events, facing.events, Array.shrink_eq_take, Array.map_extract]
      · rw [← marks]
        exact states.diagnostics.rewind (Nat.le_trans above floor) pos
    | some next =>
      refine .ok ⟨states.events, ?_⟩
      rw [← marks]
      exact states.diagnostics.settle _
  | aborted states => exact .aborted states

end Judged

/-- At every place `a'` does in its subject what `a` does in its own. -/
def Tracks (subject subject' : Subject (List Notice)) (turn : α → α) (stage : Stage)
    (a a' : Rule α) : Prop :=
  ∀ ⦃draw low low' pos s s' t r⦄, a.draw? Stack.pending.draw = some draw →
    pos ≤ subject.stop → s.Facing turn low low' s' →
    low.length + draw.need ≤ s.diagnostics.pending.depth →
    Evaluates subject stage a false pos s t r →
    ∃ t' r', Evaluates subject' stage a' false pos s' t' r' ∧ Judged turn low low' r r'

section Draws

variable {σ : Type} {subject : Subject σ} {rule : Rule α} {pos next floor : Nat}
  {s s₁ : Matching σ α} {t : List (Performance σ)} {draw second : Draw}

/-- What is left above the floor for what follows. -/
theorem Evaluates.enough_next
    (h : Evaluates subject .attempt rule false pos s t (.ok (some next) s₁))
    (known : rule.draw? Stack.pending.draw = some draw)
    (enough : floor + (draw.andThen second).need ≤ s.diagnostics.pending.depth) :
    floor + second.need ≤ s₁.diagnostics.pending.depth := by
  have need := draw.need_andThen second
  have within : draw.need ≤ Stack.pending.depth s.diagnostics := by
    simp only [Stack.depth]
    omega
  have moved : Stack.pending.Moves _ _ _ := (h.drawn known within).1
  simp only [Stack.Moves, Stack.depth, Draw.andThen] at moved enough
  omega

/-- A rule that leaves the height as it was may be matched again. -/
theorem Evaluates.enough_again
    (h : Evaluates subject .attempt rule false pos s t (.ok (some next) s₁))
    (known : rule.draw? Stack.pending.draw = some draw) (level : draw.need = draw.left)
    (enough : floor + draw.need ≤ s.diagnostics.pending.depth) :
    floor + draw.need ≤ s₁.diagnostics.pending.depth := by
  refine h.enough_next known ?_
  simp only [Draw.andThen]
  omega

end Draws

section Combinators

variable {subject subject' : Subject (List Notice)} {a a' b b' : Rule α}

namespace Tracks

theorem of_body (body : Tracks subject subject' turn .body a a') :
    Tracks subject subject' turn .attempt a a' := by
  intro draw low low' pos s s' t r known inside facing enough h
  cases h with
  | close h =>
    obtain ⟨t', r', h', judged⟩ := body known inside facing enough h
    exact ⟨t', _, .close h', judged.close facing (Nat.le_refl _) pos⟩

/-- Rules without parts that match alike. -/
theorem leaf (same : ∀ pos, ∃ m, a.leaf? subject.input pos = some m ∧
      a'.leaf? subject'.input pos = some m) :
    Tracks subject subject' turn .attempt a a' := by
  refine of_body fun draw low low' pos s s' t r _ _ facing _ h => ?_
  obtain ⟨m, here, here'⟩ := same pos
  cases h with
  | leaf found =>
    obtain rfl := Option.some.inj (found.symm.trans here)
    exact ⟨[], _, .leaf here', .ok facing⟩
  | _ => simp [Rule.leaf?] at here

theorem seq (faces : subject.Faces subject') (first : Tracks subject subject' turn .attempt a a')
    (second : Tracks subject subject' turn .attempt b b') :
    Tracks subject subject' turn .attempt (.seq a b) (.seq a' b') := by
  refine of_body fun draw low low' pos s s' t r known inside facing enough h => ?_
  obtain ⟨d, e, knownFirst, -, knownSecond, rfl⟩ := Rule.draw?_seq known
  have need := Draw.need_andThen d e
  cases h with
  | leaf found => simp [Rule.leaf?] at found
  | seqEnd h ends =>
    obtain ⟨t', r', h', judged⟩ := first knownFirst inside facing (by omega) h
    exact ⟨t', r', .seqEnd h' (judged.position?.trans ends), judged⟩
  | seqNext h₁ h₂ =>
    obtain ⟨t', _, h₁', judged⟩ := first knownFirst inside facing (by omega) h₁
    obtain ⟨s₁', rfl, facing⟩ := judged.finished
    have further := (h₁.onward faces.bounded inside).2
    obtain ⟨u', r', h₂', judged⟩ :=
      second knownSecond further facing (h₁.enough_next knownFirst enough) h₂
    exact ⟨t' ++ u', r', .seqNext h₁' h₂', judged⟩

theorem optional (part : Tracks subject subject' turn .attempt a a') :
    Tracks subject subject' turn .attempt (.optional a) (.optional a') := by
  refine of_body fun draw low low' pos s s' t r known inside facing enough h => ?_
  have knownPart := (Rule.draw?_level known).1
  cases h with
  | leaf found => simp [Rule.leaf?] at found
  | optionalStop h =>
    obtain ⟨t', _, h', judged⟩ := part knownPart inside facing enough h
    obtain ⟨s₁', rfl, echoes⟩ := judged.stopped
    exact ⟨t', _, .optionalStop h', judged⟩
  | optionalNext h =>
    obtain ⟨t', _, h', judged⟩ := part knownPart inside facing enough h
    obtain ⟨s₁', rfl, facing⟩ := judged.finished
    exact ⟨t', _, .optionalNext h', .ok facing⟩

/-- Repetitions keep in step round by round. -/
theorem many_body (faces : subject.Faces subject')
    (part : Tracks subject subject' turn .attempt a a') :
    Tracks subject subject' turn .body (.many a) (.many a') := by
  intro draw low low' pos s s' t r known inside facing enough h
  obtain ⟨knownPart, level⟩ := Rule.draw?_level known
  generalize stages : Stage.body = stage at h
  generalize rules : Rule.many a = rule at h
  generalize loud : false = silent at h
  induction h generalizing s' with
  | leaf found =>
    subst rules
    simp [Rule.leaf?] at found
  | manyStop h _ =>
    cases rules
    cases loud
    obtain ⟨t', _, h', judged⟩ := part knownPart inside facing enough h
    obtain ⟨s₁', rfl, echoes⟩ := judged.stopped
    exact ⟨t', _, .manyStop h', judged⟩
  | manyEnd h last _ =>
    cases rules
    cases loud
    obtain ⟨t', _, h', judged⟩ := part knownPart inside facing enough h
    obtain ⟨s₁', rfl, facing⟩ := judged.finished
    exact ⟨t', _, .manyEnd h' last, .ok facing⟩
  | manyNext h apart rest _ ih =>
    cases rules
    cases loud
    obtain ⟨t', _, h', judged⟩ := part knownPart inside facing enough h
    obtain ⟨s₁', rfl, facing⟩ := judged.finished
    have further := (h.onward faces.bounded inside).2
    obtain ⟨u', r', rest', judged⟩ :=
      ih further facing (h.enough_again knownPart level enough) rfl rfl rfl
    exact ⟨t' ++ u', r', .manyNext h' apart rest', judged⟩
  | close => cases stages
  | _ => cases rules

theorem many (faces : subject.Faces subject')
    (part : Tracks subject subject' turn .attempt a a') :
    Tracks subject subject' turn .attempt (.many a) (.many a') :=
  (part.many_body faces).of_body

theorem many1 (faces : subject.Faces subject')
    (part : Tracks subject subject' turn .attempt a a') :
    Tracks subject subject' turn .attempt (.many1 a) (.many1 a') := by
  refine of_body fun draw low low' pos s s' t r known inside facing enough h => ?_
  obtain ⟨knownPart, level⟩ := Rule.draw?_level known
  cases h with
  | leaf found => simp [Rule.leaf?] at found
  | many1End h last =>
    obtain ⟨t', r', h', judged⟩ := part knownPart inside facing enough h
    exact ⟨t', r', .many1End h' (judged.position?.symm ▸ last), judged⟩
  | many1Next h apart rest =>
    obtain ⟨t', _, h', judged⟩ := part knownPart inside facing enough h
    obtain ⟨s₁', rfl, facing⟩ := judged.finished
    have further := (h.onward faces.bounded inside).2
    obtain ⟨u', r', rest', judged⟩ := part.many_body faces known further facing
      (h.enough_again knownPart level enough) rest
    exact ⟨t' ++ u', r', .many1Next h' apart rest', judged⟩

theorem action (part : Tracks subject subject' turn .attempt a a') (act : α) :
    Tracks subject subject' turn .attempt (.action a act) (.action a' (turn act)) := by
  refine of_body fun draw low low' pos s s' t r known inside facing enough h => ?_
  have reserved : Matching.Facing turn low low' ⟨s.events.push .placeholder, s.diagnostics⟩
      ⟨s'.events.push .placeholder, s'.diagnostics⟩ :=
    ⟨by simp [facing.events, Event.turned], facing.diagnostics⟩
  cases h with
  | leaf found => simp [Rule.leaf?] at found
  | actionEnd h ends =>
    obtain ⟨t', r', h', judged⟩ := part known inside reserved enough h
    exact ⟨t', r', .actionEnd h' (judged.position?.trans ends), judged⟩
  | actionNext h =>
    obtain ⟨t', _, h', judged⟩ := part known inside reserved enough h
    obtain ⟨s₁', rfl, facing₁⟩ := judged.finished
    refine ⟨t', _, .actionNext h', .ok ⟨?_, facing₁.diagnostics⟩⟩
    simp [Matching.fill, facing₁.events, facing.events, Array.map_setIfInBounds, Event.turned]

end Tracks

/-- An effect inside the subject is performed on a span that begins where its rule began. -/
theorem Performance.outcome_within {σ : Type} {subject : Subject σ} (bounded : subject.Bounded)
    {pos next : Nat} (within : pos ≤ next ∧ next ≤ subject.stop) (e : Effect)
    (d : Diagnostics σ) : ∃ span : Span, span.start = pos ∧
      (Performance.mk e pos next d).outcome subject =
        Diagnostics.apply subject.monitor e span d := by
  let span : Span :=
    ⟨subject.source, pos, next, within.1, Nat.le_trans within.2 bounded⟩
  have whole : Span.between subject.source pos next = .ok span := span.between_self
  refine ⟨span, rfl, ?_⟩
  simp only [Performance.outcome, whole]

theorem Performance.outcome_prepare {σ : Type} {subject : Subject σ} (bounded : subject.Bounded)
    {pos next : Nat} (within : pos ≤ next ∧ next ≤ subject.stop) (n : Message) {d : Diagnostics σ}
    (filled : d.pending.depth ≠ 0) :
    (Performance.mk (.prepare n) pos next d).outcome subject = .ok ()
      { d with pending := d.pending.pop.push ⟨n, subject.monitor.lines.line pos⟩ } := by
  obtain ⟨span, start, outcome⟩ := outcome_within bounded within (.prepare n) d
  rw [outcome, Diagnostics.apply, if_neg filled, start]

/-- An effect that is performed at one place of both subjects. -/
theorem Subject.Faces.performed (faces : subject.Faces subject') {pos next : Nat}
    (within : pos ≤ next ∧ next ≤ subject.stop) {e e' : Effect} (effects : e.Alike e')
    {d d' : Diagnostics (List Notice)} (facing : d.Facing low low' d')
    (enough : low.length + (Stack.pending.draw e).need ≤ d.pending.depth) :
    InStep (Diagnostics.Facing low low') Diagnostics.Echoes
      ((Performance.mk e pos next d).outcome subject)
      ((Performance.mk e' pos next d').outcome subject') := by
  obtain ⟨span, start, outcome⟩ := Performance.outcome_within faces.bounded within e d
  obtain ⟨span', start', outcome'⟩ :=
    Performance.outcome_within faces.bounded' (faces.stop ▸ within) e' d'
  rw [outcome, outcome']
  exact Diagnostics.apply_facing faces.monitors effects (start.trans start'.symm) facing enough

namespace Tracks

theorem effect (faces : subject.Faces subject') {e e' : Effect}
    (part : Tracks subject subject' turn .attempt a a') (effects : e.Alike e') :
    Tracks subject subject' turn .attempt (.effect a e) (.effect a' e') := by
  refine of_body fun draw low low' pos s s' t r known inside facing enough h => ?_
  obtain ⟨d, knownPart, rfl⟩ := Rule.draw?_effect known
  have need := d.need_andThen (Stack.pending.draw e)
  have performed {t : List (Performance (List Notice))} {next : Nat}
      {s₁ s₁' : Matching (List Notice) α}
      (h : Evaluates subject .attempt a false pos s t (.ok (some next) s₁))
      (facing : s₁.Facing turn low low' s₁') :=
    faces.performed (h.onward faces.bounded inside) effects facing.diagnostics
      (h.enough_next knownPart enough)
  cases h with
  | leaf found => simp [Rule.leaf?] at found
  | effectEnd h ends =>
    obtain ⟨t', r', h', judged⟩ := part knownPart inside facing (by omega) h
    exact ⟨t', r', .effectEnd h' (judged.position?.trans ends), judged⟩
  | effectStop h outcome =>
    obtain ⟨t', _, h', judged⟩ := part knownPart inside facing (by omega) h
    obtain ⟨s₁', rfl, facing₁⟩ := judged.finished
    have step := performed h facing₁
    rw [outcome] at step
    generalize outcome' : Performance.outcome subject' _ = result at step
    cases step with
    | aborted echoes => exact ⟨_, _, .effectStop h' outcome', .aborted echoes⟩
  | effectNext h outcome =>
    obtain ⟨t', _, h', judged⟩ := part knownPart inside facing (by omega) h
    obtain ⟨s₁', rfl, facing₁⟩ := judged.finished
    have step := performed h facing₁
    rw [outcome] at step
    obtain ⟨d', outcome', facing₂⟩ := step.finished
    exact ⟨_, _, .effectNext h' outcome', .ok ⟨facing₁.events, facing₂⟩⟩

end Tracks

section Covers

/-- Two matches with one more message waiting on either side, whatever the two say: what stands
below them faces, and the rest of the diagnostics does. -/
structure Matching.Covering (turn : α → α) (low low' : List Entry)
    (s s' : Matching (List Notice) α) : Prop where
  facing : s.Facing turn s.diagnostics.pending.stack.toList s'.diagnostics.pending.stack.toList s'
  below : ∃ q q' e e', Pending.Paired Entry.Alike 0 0 low low' q q' ∧
    s.diagnostics.pending = q.push e ∧ s'.diagnostics.pending = q'.push e'

/-- How two attempts end that push a message as they match. -/
inductive Covered (turn : α → α) (low low' : List Entry) :
    Verdict (List Notice) α → Verdict (List Notice) α → Prop where
  | failed {r r'} : r.position? = none → Judged turn low low' r r' → Covered turn low low' r r'
  | matched {next s s'} : s.Covering turn low low' s' →
      Covered turn low low' (.ok (some next) s) (.ok (some next) s')

variable {draw : Draw} {pos : Nat} {s s' : Matching (List Notice) α}
  {t : List (Performance (List Notice))} {r : Verdict (List Notice) α}

theorem Tracks.covered (faces : subject.Faces subject')
    (part : Tracks subject subject' turn .attempt a a') (m m' : Message)
    (known : (Rule.effect a (.push m)).draw? Stack.pending.draw = some draw)
    (inside : pos ≤ subject.stop) (facing : s.Facing turn low low' s')
    (enough : low.length + draw.need ≤ s.diagnostics.pending.depth)
    (h : Evaluates subject .attempt (.effect a (.push m)) false pos s t r) :
    ∃ t' r', Evaluates subject' .attempt (.effect a' (.push m')) false pos s' t' r' ∧
      Covered turn low low' r r' := by
  obtain ⟨d, knownPart, rfl⟩ := Rule.draw?_effect known
  have need := d.need_andThen (Stack.pending.draw (.push m))
  cases h with
  | close h =>
    cases h with
    | leaf found => simp [Rule.leaf?] at found
    | effectEnd h ends =>
      obtain ⟨t', r', h', judged⟩ := part knownPart inside facing (by omega) h
      exact ⟨t', _, .close (.effectEnd h' (judged.position?.trans ends)),
        .failed (by simpa using ends) (judged.close facing (Nat.le_refl _) pos)⟩
    | effectStop h outcome =>
      obtain ⟨span, -, pushed⟩ := Performance.outcome_within faces.bounded
        (h.onward faces.bounded inside) (.push m) _
      rw [pushed] at outcome
      cases outcome
    | effectNext h outcome =>
      obtain ⟨t', _, h', judged⟩ := part knownPart inside facing (by omega) h
      obtain ⟨s₁', rfl, facing₁⟩ := judged.finished
      have onward := h.onward faces.bounded inside
      obtain ⟨span, start, pushed⟩ := Performance.outcome_within faces.bounded onward (.push m) _
      obtain ⟨span', start', pushed'⟩ := Performance.outcome_within faces.bounded'
        (faces.stop ▸ onward) (.push m') s₁'.diagnostics
      rw [pushed] at outcome
      cases outcome
      have marks := facing.diagnostics.mark
      have settled := (facing₁.diagnostics.settle s.diagnostics.mark).pending
      refine ⟨_, _, .close (.effectNext h' pushed'), .matched ⟨⟨facing₁.events, ?_⟩, ?_⟩⟩
      · rw [← marks]
        exact { facing₁.diagnostics with pending := settled.cover _ _ }
      · rw [← marks]
        exact ⟨_, _, _, _, settled, rfl, rfl⟩

/-- The covering message stands above the floor. -/
theorem Matching.Covering.floor_le (covering : s.Covering turn low low' s') :
    low.length ≤ s.diagnostics.pending.stack.toList.length := by
  obtain ⟨q, q', e, e', below, top, -⟩ := covering.below
  have low_le := below.floor_le
  rw [top]
  simp only [Pending.depth] at low_le
  simp only [Pending.push, Array.length_toList, Array.size_push]
  omega

/-- What draws nothing may be repeated without a draw. -/
theorem Rule.draw?_many_none {of : Effect → Draw} (level : b.draw? of = some .none) :
    (Rule.many b).draw? of = some .none := by
  simp [draw?, level, Draw.level?, Draw.none]

/-- A repetition that draws nothing leaves the stack as high as it was. -/
theorem Evaluates.depth_of_many {next : Nat} {s₁ : Matching (List Notice) α}
    (h : Evaluates subject .attempt (.many b) false pos s t (.ok (some next) s₁))
    (level : b.draw? Stack.pending.draw = some .none) :
    s₁.diagnostics.pending.depth = s.diagnostics.pending.depth :=
  (h.drawn (Rule.draw?_many_none level) (Nat.zero_le _)).1

/-- A message that takes the place of the covered one, once the repetition has ended where it
began on the stack. -/
theorem Tracks.uncovered (faces : subject.Faces subject')
    (part : Tracks subject subject' turn .attempt b b')
    (level : b.draw? Stack.pending.draw = some .none) {n n' : Message}
    (messages : n.level = n'.level) (inside : pos ≤ subject.stop)
    (covering : s.Covering turn low low' s')
    (h : Evaluates subject .attempt (.effect (.many b) (.prepare n)) false pos s t r) :
    ∃ t' r', Evaluates subject' .attempt (.effect (.many b') (.prepare n')) false pos s' t' r' ∧
      Judged turn low low' r r' := by
  have floor := covering.floor_le
  obtain ⟨facing, q, q', e, e', below, top, top'⟩ := covering
  have repeats {t : List (Performance (List Notice))} {r : Verdict (List Notice) α}
      (h : Evaluates subject .attempt (.many b) false pos s t r) :=
    part.many faces (Rule.draw?_many_none level) inside facing (by simp [Draw.none, Pending.depth]) h
  have height {t : List (Performance (List Notice))} {next : Nat} {s₁ : Matching (List Notice) α}
      (h : Evaluates subject .attempt (.many b) false pos s t (.ok (some next) s₁)) :
      s₁.diagnostics.pending.depth = q.depth + 1 := by
    rw [h.depth_of_many level, top]
    simp [Pending.push, Pending.depth]
  cases h with
  | close h =>
    cases h with
    | leaf found => simp [Rule.leaf?] at found
    | effectEnd h ends =>
      obtain ⟨t', r', h', judged⟩ := repeats h
      refine ⟨t', _, .close (.effectEnd h' (judged.position?.trans ends)), ?_⟩
      cases judged with
      | ok =>
        cases ends
        exact h.recognizes.not_many_none.elim
      | aborted echoes => exact .aborted echoes
    | effectStop h outcome =>
      rw [Performance.outcome_prepare faces.bounded (h.onward faces.bounded inside) n
        (by rw [height h]; simp)] at outcome
      cases outcome
    | effectNext h outcome =>
      obtain ⟨t', _, h', judged⟩ := repeats h
      obtain ⟨s₁', rfl, facing₁⟩ := judged.finished
      have onward := h.onward faces.bounded inside
      have pending := facing₁.diagnostics.pending
      have filled := height h
      have filled' := pending.depth ▸ filled
      rw [top, top'] at pending
      have prepared := Performance.outcome_prepare faces.bounded' (faces.stop ▸ onward) n'
        (by rw [filled']; simp)
      rw [Performance.outcome_prepare faces.bounded onward n (by rw [filled]; simp)] at outcome
      cases outcome
      have line : subject.monitor.lines.line pos = subject'.monitor.lines.line pos := by
        rw [faces.monitors.lines]
      have entries : Entry.Alike ⟨n, subject.monitor.lines.line pos⟩
          ⟨n', subject'.monitor.lines.line pos⟩ := ⟨messages, line⟩
      refine ⟨_, _, .close (.effectNext h' prepared), Judged.close (.ok ?_) facing floor pos⟩
      have replaced := (below.uncover pending filled).push entries
      exact ⟨facing₁.events, { facing₁.diagnostics with pending := replaced }⟩

/-- A message that gives way to another whatever happens may differ in its level. -/
theorem Tracks.overwritten (faces : subject.Faces subject')
    (first : Tracks subject subject' turn .attempt a a')
    (part : Tracks subject subject' turn .attempt b b')
    (level : b.draw? Stack.pending.draw = some .none) (m m' : Message) {n n' : Message}
    (messages : n.level = n'.level) :
    Tracks subject subject' turn .attempt
      (.seq (.effect a (.push m)) (.effect (.many b) (.prepare n)))
      (.seq (.effect a' (.push m')) (.effect (.many b') (.prepare n'))) := by
  refine of_body fun draw low low' pos s s' t r known inside facing enough h => ?_
  obtain ⟨d, e, knownFirst, -, -, rfl⟩ := Rule.draw?_seq known
  have need := Draw.need_andThen d e
  have covers {t : List (Performance (List Notice))} {r : Verdict (List Notice) α}
      (h : Evaluates subject .attempt (.effect a (.push m)) false pos s t r) :=
    first.covered faces m m' knownFirst inside facing (by omega) h
  cases h with
  | leaf found => simp [Rule.leaf?] at found
  | seqEnd h ends =>
    obtain ⟨t', r', h', covered⟩ := covers h
    cases covered with
    | failed _ judged => exact ⟨t', r', .seqEnd h' (judged.position?.trans ends), judged⟩
    | matched => cases ends
  | seqNext h₁ h₂ =>
    obtain ⟨t', _, h₁', covered⟩ := covers h₁
    cases covered with
    | failed ends => cases ends
    | matched covering =>
      have further := (h₁.onward faces.bounded inside).2
      obtain ⟨u', r', h₂', judged⟩ :=
        part.uncovered faces level messages further covering h₂
      exact ⟨t' ++ u', r', .seqNext h₁' h₂', judged⟩

end Covers

end Combinators
end Backtrack
