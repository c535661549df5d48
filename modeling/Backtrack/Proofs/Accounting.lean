import Backtrack.Proofs.Trail
import Backtrack.Proofs.Watching

/-! The account of a match. Under a host that is watched and never detaches, the report counts
exactly the errors that the sink has received, and the sink receives what each effect sends, in
order, every error right behind the scope that is open around it. The budget is kept at every step
until the error that uses it up, and that error ends the match. -/
namespace Backtrack

variable {σ α β : Type}

/-- What holds after an operation, by how it ends. Nothing is said of a fault. -/
def Ends {τ : Type} (ok : β → τ → Prop) (aborted : τ → Prop) : EStateM.Result Stop τ β → Prop
  | .ok result s => ok result s
  | .error (.aborted _) s => aborted s
  | .error (.fault _) _ => True

namespace Ends

variable {τ γ : Type} {ok : β → τ → Prop} {aborted : τ → Prop}

theorem bind {x : EStateM Stop τ β} {f : β → EStateM Stop τ γ} {s : τ} {after : γ → τ → Prop}
    (first : Ends ok aborted (x s)) (rest : ∀ b s', ok b s' → Ends after aborted (f b s')) :
    Ends after aborted ((x >>= f) s) := by
  rw [bind_apply]
  rcases h : x s with ⟨b, s'⟩ | ⟨errors | fault, s'⟩ <;> rw [h] at first
  · exact rest b s' first
  · exact first
  · trivial

theorem mono {r : EStateM.Result Stop τ β} {ok' : β → τ → Prop} {aborted' : τ → Prop}
    (h : Ends ok aborted r) (good : ∀ b s, ok b s → ok' b s) (bad : ∀ s, aborted s → aborted' s) :
    Ends ok' aborted' r := by
  rcases r with ⟨b, s⟩ | ⟨errors | fault, s⟩
  · exact good b s h
  · exact bad s h
  · trivial

/-- What never uses up the budget may stand among operations that do. -/
theorem never {r : EStateM.Result Stop τ β} (h : Ends ok (fun _ => False) r) : Ends ok aborted r :=
  h.mono (fun _ _ kept => kept) nofun

theorem forM {f : γ → EStateM Stop τ PUnit} {holds : τ → Prop}
    (each : ∀ c s, holds s → Ends (fun _ s' => holds s') aborted (f c s)) (items : List γ) {s : τ}
    (initial : holds s) : Ends (fun _ s' => holds s') aborted (items.forM f s) := by
  induction items generalizing s with
  | nil => exact initial
  | cons c items ih => exact (each c s initial).bind fun _ _ kept => ih kept

theorem on_diagnostics {op : Diagnosing σ β} {s : Matching σ α}
    {ok : β → Diagnostics σ → Prop} {aborted : Diagnostics σ → Prop}
    (h : Ends ok aborted (op s.diagnostics)) :
    Ends (fun b s' => s'.events = s.events ∧ ok b s'.diagnostics)
      (fun s' => aborted s'.diagnostics) (Matching.onDiagnostics op s) := by
  simp only [Matching.onDiagnostics]
  rcases run : op s.diagnostics with ⟨b, d⟩ | ⟨errors | fault, d⟩ <;> rw [run] at h
  · exact ⟨rfl, h⟩
  · exact h
  · trivial

end Ends

def errorsAmong (notices : List Notice) : List Notice := notices.filter (·.level.isError)

@[simp] theorem errorsAmong_append (notices more : List Notice) :
    errorsAmong (notices ++ more) = errorsAmong notices ++ errorsAmong more :=
  List.filter_append ..

/-- An error is introduced by the innermost scope. -/
def Breadcrumbs.introduction (crumbs : Breadcrumbs) (notice : Notice) : List Notice :=
  match notice.level.isError, crumbs.top? with
  | true, some crumb => [⟨⟨.content, crumb.render, none⟩, notice.line⟩]
  | _, _ => []

/-- What the sink receives when a message is sent inside these scopes. -/
def Breadcrumbs.packet (crumbs : Breadcrumbs) (notice : Notice) : List Notice :=
  crumbs.introduction notice ++ [notice]

theorem Breadcrumbs.packet_of_scope {crumbs : Breadcrumbs} {notice : Notice} {crumb : Breadcrumb}
    (error : notice.level.isError = true) (scope : crumbs.top? = some crumb) :
    crumbs.packet notice = [⟨⟨.content, crumb.render, none⟩, notice.line⟩, notice] := by
  simp only [packet, introduction, error, scope]
  rfl

theorem Breadcrumbs.packet_unscoped {crumbs : Breadcrumbs} (unscoped : crumbs.top? = none)
    (notice : Notice) : crumbs.packet notice = [notice] := by
  simp [packet, introduction, unscoped]

theorem Breadcrumbs.errorsAmong_packet (crumbs : Breadcrumbs) (notice : Notice) :
    errorsAmong (crumbs.packet notice) = if notice.level.isError then [notice] else [] := by
  have content : Level.isError .content = false := rfl
  unfold packet introduction errorsAmong
  cases level : notice.level.isError <;> cases crumbs.top? <;> simp [level, content]

/-- The sink of a watched host that never detaches. -/
structure Monitor.Notes (m : Monitor (Watched σ)) : Prop where
  received : ∀ w notice, (m.sink w notice).1.received = w.received ++ [notice]
  replays : ∀ w notice, (m.sink w notice).1.replays = w.replays
  attached : ∀ w notice, (m.sink w notice).2 ≠ .detach

/-- The sink has received these messages in between, and nothing was replayed. -/
structure Heard (notices : List Notice) (w w' : Watched σ) : Prop where
  received : w'.received = w.received ++ notices
  replays : w'.replays = w.replays

namespace Heard

variable {notices more : List Notice} {w w₁ w₂ : Watched σ}

theorem refl (w : Watched σ) : Heard [] w w := ⟨(List.append_nil _).symm, rfl⟩

theorem append (first : Heard notices w w₁) (second : Heard more w₁ w₂) :
    Heard (notices ++ more) w w₂ where
  received := by rw [second.received, first.received, List.append_assoc]
  replays := second.replays.trans first.replays

end Heard

/-- The report counts the errors that the sink has received. -/
structure Accounted (d : Diagnostics (Watched σ)) : Prop where
  attached : d.detached = false
  counted : d.report.errors = (errorsAmong d.world.received).length

/-- The budget is not used up. -/
structure Solvent (m : Monitor (Watched σ)) (d : Diagnostics (Watched σ)) : Prop
    extends Accounted d where
  within : d.report.errors < m.budget

/-- The budget is used up by the last error that the sink has received. -/
structure Exhausted (m : Monitor (Watched σ)) (d : Diagnostics (Watched σ)) : Prop
    extends Accounted d where
  spent : d.report.errors = m.budget
  last : ∃ notice, (errorsAmong d.world.received).getLast? = some notice ∧
    d.last = some notice.text

/-- Ends in the account of a sink that has received these messages in between. -/
def Solvent.Goes (m : Monitor (Watched σ)) (w : Watched σ) (notices : List Notice) :
    EStateM.Result Stop (Diagnostics (Watched σ)) β → Prop :=
  Ends (fun _ d => Solvent m d ∧ Heard notices w d.world)
    (fun d => Exhausted m d ∧ Heard notices w d.world)

section Sending

variable {m : Monitor (Watched σ)} {d : Diagnostics (Watched σ)}

theorem Diagnostics.deliver_heard (notes : m.Notes) (attached : d.detached = false)
    (notice : Notice) :
    Ends (fun _ d' => d' = { d with world := d'.world } ∧ Heard [notice] d.world d'.world)
      (fun _ => False) (deliver m notice d) := by
  have received := notes.received d.world notice
  have replays := notes.replays d.world notice
  have keeps := notes.attached d.world notice
  unfold deliver
  rw [if_neg (by simp [attached])]
  rcases answered : m.sink d.world notice with ⟨world, _ | _ | reason⟩ <;>
    rw [answered] at received replays keeps
  · exact ⟨rfl, received, replays⟩
  · exact absurd rfl keeps
  · trivial

theorem Diagnostics.introduce_heard (notes : m.Notes) (attached : d.detached = false)
    (notice : Notice) :
    Ends (fun _ d' => d' = { d with world := d'.world } ∧
        Heard (d.crumbs.introduction notice) d.world d'.world)
      (fun _ => False) (introduce m notice d) := by
  unfold introduce Breadcrumbs.introduction
  cases notice.level.isError with
  | false => exact ⟨rfl, .refl _⟩
  | true =>
    cases d.crumbs.top? with
    | none => exact ⟨rfl, .refl _⟩
    | some crumb => exact deliver_heard notes attached _

/-- Charging a message that the sink has just received keeps the account. -/
theorem Solvent.charge (solvent : Solvent m d) {world : Watched σ} {notice : Notice}
    (heard : Heard (d.crumbs.packet notice) d.world world) :
    Goes m d.world (d.crumbs.packet notice)
      (Diagnostics.charge m notice { d with world := world }) := by
  have accounted : Accounted ({ d with world := world }.charged notice) := by
    refine ⟨solvent.attached, ?_⟩
    simp only [Diagnostics.charged, heard.received, errorsAmong_append,
      Breadcrumbs.errorsAmong_packet, solvent.counted, List.length_append]
    split <;> rfl
  rw [Diagnostics.charge_eq]
  by_cases spent : notice.level.isError ∧
      m.budget ≤ ({ d with world := world }.charged notice).report.errors
  · rw [if_pos spent]
    obtain ⟨error, full⟩ := spent
    have within := solvent.within
    refine ⟨⟨accounted, ?_, notice, ?_, rfl⟩, heard⟩
    · simp only [Diagnostics.charged, if_pos error] at full ⊢
      omega
    · simp only [Diagnostics.charged, heard.received, errorsAmong_append,
        Breadcrumbs.errorsAmong_packet, if_pos error]
      exact List.getLast?_concat
  · rw [if_neg spent]
    refine ⟨⟨accounted, ?_⟩, heard⟩
    by_cases error : notice.level.isError = true
    · exact Nat.lt_of_not_le fun full => spent ⟨error, full⟩
    · simp only [Diagnostics.charged, if_neg error]
      exact solvent.within

theorem Solvent.send (notes : m.Notes) (solvent : Solvent m d) (notice : Notice) :
    Goes m d.world (d.crumbs.packet notice) (Diagnostics.send m notice d) := by
  have introduced := Diagnostics.introduce_heard notes solvent.attached notice
  refine Ends.bind introduced.never ?_
  rintro _ d₁ ⟨same₁, heard₁⟩
  have still : d₁.detached = false := by rw [same₁, solvent.attached]
  have delivered := Diagnostics.deliver_heard notes still notice
  refine Ends.bind delivered.never ?_
  rintro _ d₂ ⟨same₂, heard₂⟩
  rw [same₂, same₁]
  exact solvent.charge (heard₁.append heard₂)

theorem Solvent.of_stacks (solvent : Solvent m d) (pending : Pending) (crumbs : Breadcrumbs) :
    Solvent m { d with pending, crumbs } := by
  obtain ⟨⟨attached, counted⟩, within⟩ := solvent
  exact ⟨⟨attached, counted⟩, within⟩

theorem Solvent.flushAbandoned (notes : m.Notes) (solvent : Solvent m d) :
    Ends (fun _ d' => Solvent m d' ∧ ∃ notices, Heard notices d.world d'.world)
      (fun d' => Exhausted m d' ∧ ∃ notices, Heard notices d.world d'.world)
      (Diagnostics.flushAbandoned m d) := by
  let emptied : Diagnostics (Watched σ) := { d with pending.abandoned := #[] }
  change Ends _ _ ((d.pending.abandoned.toList.filter (!·.claimed)).forM
    (fun a => Diagnostics.send m a.entry.notice) emptied)
  refine Ends.forM ?_ _ ⟨solvent.of_stacks _ _, [], .refl _⟩
  rintro a d₁ ⟨still, notices, heard⟩
  refine (still.send notes a.entry.notice).mono ?_ ?_
  · rintro _ d₂ ⟨last, more⟩
    exact ⟨last, _, heard.append more⟩
  · rintro d₂ ⟨spent, more⟩
    exact ⟨spent, _, heard.append more⟩

end Sending

/-- The message that an effect sends, if any. -/
def Performance.sent? (subject : Subject σ) (p : Performance σ) : Option Notice :=
  match Span.between subject.source p.start p.stop with
  | .error _ => none
  | .ok span =>
    match p.effect with
    | .pop => p.state.pending.stack.back?.map (·.notice)
    | .popAbandoned => (p.state.pending.claim? span.start).map (·.1.notice)
    | .sendNow message => some { message with line := subject.monitor.lines.line span.start }
    | _ => none

/-- What the sink receives from an effect. -/
def Performance.packet (subject : Subject σ) (p : Performance σ) : List Notice :=
  match p.sent? subject with
  | some notice => p.state.crumbs.packet notice
  | none => []

namespace Performance

variable {subject : Subject σ} {p : Performance σ}

theorem sent?_of_between {span : Span}
    (between : Span.between subject.source p.start p.stop = .ok span) :
    p.sent? subject = Diagnostics.notice? subject.monitor p.effect span p.state := by
  rw [sent?, between]
  rfl

/-- A performance is refused, or changes no more than the stacks, or sends its message with the
pending entries changed. -/
@[elab_as_elim]
theorem outcome_cases {motive : EStateM.Result Stop (Diagnostics σ) Unit → Prop}
    (subject : Subject σ) (p : Performance σ)
    (refused : ∀ fault, motive (.error (.fault fault) p.state))
    (quiet : ∀ pending crumbs, p.sent? subject = none →
      motive (.ok () { p.state with pending, crumbs }))
    (sends : ∀ pending notice, p.sent? subject = some notice →
      motive (Diagnostics.send subject.monitor notice { p.state with pending })) :
    motive (p.outcome subject) := by
  unfold outcome
  cases between : Span.between subject.source p.start p.stop with
  | error fault => exact refused fault
  | ok span =>
    have told := sent?_of_between between
    change motive (Diagnostics.apply subject.monitor p.effect span p.state)
    refine Diagnostics.apply_cases _ _ _ _ (fun fault _ => refused fault) ?_ ?_
    · exact fun unsent => quiet _ _ (told.trans unsent)
    · exact fun notice sent => sends _ notice (told.trans sent)

/-- A performance that succeeds has changed no more than the stacks, or has sent its message. -/
theorem outcome_ok {d : Diagnostics σ} (done : p.outcome subject = .ok () d) :
    (p.sent? subject = none ∧ ∃ pending crumbs, d = { p.state with pending, crumbs }) ∨
      ∃ notice pending, p.sent? subject = some notice ∧
        Diagnostics.send subject.monitor notice { p.state with pending } = .ok () d := by
  revert done
  refine outcome_cases subject p (fun fault done => nomatch done) ?_ ?_
  · intro pending crumbs unsent done
    cases done
    exact .inl ⟨unsent, pending, crumbs, rfl⟩
  · exact fun pending notice sent done => .inr ⟨notice, pending, sent, done⟩

end Performance

section Runs

variable {subject : Subject (Watched σ)}

theorem Solvent.perform (notes : subject.monitor.Notes) {p : Performance (Watched σ)}
    (solvent : Solvent subject.monitor p.state) :
    Goes subject.monitor p.state.world (p.packet subject) (p.outcome subject) := by
  unfold Performance.packet
  refine p.outcome_cases subject (fun _ => trivial) ?_ ?_
  · intro pending crumbs unsent
    rw [unsent]
    exact ⟨solvent.of_stacks pending crumbs, .refl _⟩
  · intro pending notice sent
    rw [sent]
    exact (solvent.of_stacks pending p.state.crumbs).send notes notice

/-- Along a trail the budget is kept, and the sink receives what each effect sends, in order. -/
theorem Trail.solvent (notes : subject.monitor.Notes) {d final : Diagnostics (Watched σ)}
    {t : List (Performance (Watched σ))} (trail : Trail subject d t final)
    (solvent : Solvent subject.monitor d) :
    Solvent subject.monitor final ∧
      Heard (t.flatMap (·.packet subject)) d.world final.world := by
  induction trail with
  | nil => exact ⟨solvent, .refl _⟩
  | settle _ ih => exact ih (solvent.of_stacks _ _)
  | rewind _ ih => exact ih (solvent.of_stacks _ _)
  | @perform p _ _ _ done _ ih =>
    have performed := Solvent.perform notes solvent
    rw [done] at performed
    obtain ⟨still, heard⟩ := ih performed.1
    exact ⟨still, performed.2.append heard⟩

/-- A match that is not stopped by a fault keeps the account, or uses up the budget at its end. -/
theorem Evaluates.solvent (notes : subject.monitor.Notes) {stage : Stage} {rule : Rule α}
    {silent : Bool} {pos : Nat} {s : Matching (Watched σ) α} {t : List (Performance (Watched σ))}
    {r : Verdict (Watched σ) α} (h : Evaluates subject stage rule silent pos s t r)
    (solvent : Solvent subject.monitor s.diagnostics) :
    Ends
      (fun _ s' => Solvent subject.monitor s'.diagnostics ∧
        Heard (t.flatMap (·.packet subject)) s.diagnostics.world s'.diagnostics.world)
      (fun s' => Exhausted subject.monitor s'.diagnostics ∧
        Heard (t.flatMap (·.packet subject)) s.diagnostics.world s'.diagnostics.world) r := by
  have follows := h.follows
  rcases r with ⟨m, s'⟩ | ⟨errors | fault, s'⟩
  · exact Trail.solvent notes follows solvent
  · obtain ⟨u, p, rfl, before, stopped⟩ := follows
    obtain ⟨still, heard⟩ := before.solvent notes solvent
    have performed := Solvent.perform notes still
    rw [stopped] at performed
    refine ⟨performed.1, ?_⟩
    rw [List.flatMap_append, List.flatMap_singleton]
    exact heard.append performed.2
  · trivial

/-- What an effect sends stands in the stream right behind what was there when it was performed. -/
theorem Evaluates.packet_prefix (notes : subject.monitor.Notes) {stage : Stage} {rule : Rule α}
    {silent : Bool} {pos : Nat} {s : Matching (Watched σ) α} {t : List (Performance (Watched σ))}
    {r : Verdict (Watched σ) α} (h : Evaluates subject stage rule silent pos s t r)
    (solvent : Solvent subject.monitor s.diagnostics) {p : Performance (Watched σ)}
    (member : p ∈ t) :
    p.state.world.received ++ p.packet subject <+:
      s.diagnostics.world.received ++ t.flatMap (·.packet subject) := by
  obtain ⟨u, v, rfl, trail⟩ := h.follows.before member
  have earlier := (trail.solvent notes solvent).2
  rw [earlier.received]
  simp

/-- A match that fails leaves no scope of its own open. -/
theorem Evaluates.failed_scopes {rule : Rule α} {silent : Bool} {pos : Nat} {σ : Type}
    {subject : Subject σ} {s s' : Matching σ α} {t : List (Performance σ)}
    (h : Evaluates subject .attempt rule silent pos s t (.ok none s')) :
    s'.diagnostics.crumbs.depth ≤ s.diagnostics.crumbs.depth := by
  generalize failed : EStateM.Result.ok none s' = r at h
  cases h with
  | @close _ _ _ _ _ r _ =>
    rcases r with ⟨_ | next, s₁⟩ | ⟨stop, s₁⟩ <;> cases failed
    simp only [Diagnostics.rewind, Diagnostics.mark, Breadcrumbs.depth, Breadcrumbs.truncate,
      Array.size_shrink]
    exact Nat.min_le_left ..

theorem Evaluates.failed_unscoped {rule : Rule α} {silent : Bool} {pos : Nat} {σ : Type}
    {subject : Subject σ} {s s' : Matching σ α} {t : List (Performance σ)}
    (h : Evaluates subject .attempt rule silent pos s t (.ok none s'))
    (outside : s.diagnostics.crumbs.depth = 0) : s'.diagnostics.crumbs.top? = none := by
  have closed := h.failed_scopes
  simp only [Breadcrumbs.top?, Array.back?_eq_none_iff]
  exact Array.size_eq_zero_iff.mp (Nat.le_zero.mp (outside ▸ closed))

end Runs

end Backtrack
