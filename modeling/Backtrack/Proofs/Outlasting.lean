import Backtrack.Proofs.Affording
import Backtrack.Proofs.Budget

/-! Two budgets for one parse. Under the smaller budget the matcher does what it does under the
larger one, until the error that uses the smaller budget up. What has been heard by then has been
heard under the larger budget too, and nothing that is heard is taken back. -/
namespace Backtrack

variable {σ τ υ α β γ : Type}

/-- The state in which an operation leaves off. -/
def lastState {ε : Type} : EStateM.Result ε τ β → τ
  | .ok _ s => s
  | .error _ s => s

/-- Nothing that was heard is taken back, and nobody is detached. -/
structure Diagnostics.Onward (log : σ → List Notice) (d d' : Diagnostics σ) : Prop where
  heard : log d.world <+: log d'.world
  attached : d.detached = false → d'.detached = false

namespace Diagnostics.Onward

variable {log : σ → List Notice} {d d₁ d₂ : Diagnostics σ}

/-- What does not concern the caller. -/
theorem of_same (log : σ → List Notice) (world : d₁.world = d.world)
    (detached : d₁.detached = d.detached) : Onward log d d₁ :=
  ⟨world ▸ List.prefix_refl _, fun free => detached.trans free⟩

theorem refl (log : σ → List Notice) (d : Diagnostics σ) : Onward log d d := of_same log rfl rfl

theorem trans (first : Onward log d d₁) (second : Onward log d₁ d₂) : Onward log d d₂ :=
  ⟨first.heard.trans second.heard, second.attached ∘ first.attached⟩

end Diagnostics.Onward

/-- The result `r'` of an operation that started in `s` is `r`, unless `r` is an abort: then it has
gone on from there. -/
structure Prolongs (log : σ → List Notice) (view : τ → Diagnostics σ) (s : τ)
    (r r' : EStateM.Result Stop τ β) : Prop where
  onward : (view s).Onward log (view (lastState r'))
  follows : r' = r ∨
    ∃ errors s', r = .error (.aborted errors) s' ∧ (view s').Onward log (view (lastState r'))

theorem Prolongs.of_view {log : σ → List Notice} {view : τ → Diagnostics σ} {s s' : τ}
    {r r' : EStateM.Result Stop τ β} (h : Prolongs log view s' r r')
    (onward : (view s).Onward log (view s')) : Prolongs log view s r r' :=
  ⟨onward.trans h.onward, h.follows⟩

/-- What reads off a result, and passes an abort on. -/
theorem Prolongs.map {log : σ → List Notice} {view : τ → Diagnostics σ} {view' : υ → Diagnostics σ}
    {s : τ} {s' : υ} {r r' : EStateM.Result Stop υ β}
    {f : EStateM.Result Stop υ β → EStateM.Result Stop τ γ} (h : Prolongs log view' s' r r')
    (start : (view s).Onward log (view' s'))
    (kept : ∀ r, (view' (lastState r)).Onward log (view (lastState (f r))))
    (passes : ∀ errors s', ∃ s, f (.error (.aborted errors) s') = .error (.aborted errors) s ∧
      view s = view' s') :
    Prolongs log view s (f r) (f r') := by
  obtain ⟨onward, follows⟩ := h
  refine ⟨start.trans (onward.trans (kept _)), ?_⟩
  rcases follows with rfl | ⟨errors, s₁, rfl, before⟩
  · exact .inl rfl
  · obtain ⟨s₂, passed, same⟩ := passes errors s₁
    refine .inr ⟨errors, s₂, passed, ?_⟩
    rw [same]
    exact before.trans (kept _)

/-- `y` does what `x` does until `x` is aborted. -/
def Outlasts (log : σ → List Notice) (view : τ → Diagnostics σ) (x y : EStateM Stop τ β) : Prop :=
  ∀ s, Prolongs log view s (x s) (y s)

namespace Outlasts

variable {log : σ → List Notice} {view : τ → Diagnostics σ}

theorem bind {x y : EStateM Stop τ β} {f g : β → EStateM Stop τ γ} (first : Outlasts log view x y)
    (rest : ∀ b, Outlasts log view (f b) (g b)) : Outlasts log view (x >>= f) (y >>= g) := by
  intro s
  obtain ⟨start, follows⟩ := first s
  have onward : (view (lastState (y s))).Onward log (view (lastState ((y >>= g) s))) := by
    rw [bind_apply]
    rcases y s with ⟨b, s'⟩ | ⟨stop, s'⟩
    · exact (rest b s').onward
    · exact .refl log _
  refine ⟨start.trans onward, ?_⟩
  rcases follows with same | ⟨errors, s', aborted, before⟩
  · rw [bind_apply, bind_apply, same]
    rcases x s with ⟨b, s'⟩ | ⟨stop, s'⟩
    · exact (rest b s').follows
    · exact .inl rfl
  · refine .inr ⟨errors, s', ?_, before.trans onward⟩
    rw [bind_apply, aborted]

/-- What does not look at the budget. -/
theorem same {x : EStateM Stop τ β} (onward : ∀ s, (view s).Onward log (view (lastState (x s)))) :
    Outlasts log view x x :=
  fun s => ⟨onward s, .inl rfl⟩

theorem pure (result : β) :
    Outlasts log view (pure result : EStateM Stop τ β) (pure result : EStateM Stop τ β) :=
  same fun _ => .refl log _

theorem throw (stop : Stop) :
    Outlasts log view (throw stop : EStateM Stop τ β) (throw stop : EStateM Stop τ β) :=
  same fun _ => .refl log _

theorem get {f g : τ → EStateM Stop τ β} (rest : ∀ s, Outlasts log view (f s) (g s)) :
    Outlasts log view (get >>= f) (get >>= g) :=
  fun s => rest s s

theorem forM {f g : γ → EStateM Stop τ PUnit} (each : ∀ c, Outlasts log view (f c) (g c))
    (items : List γ) : Outlasts log view (items.forM f) (items.forM g) := by
  induction items with
  | nil => exact pure _
  | cons c items ih => exact (each c).bind fun _ => ih

end Outlasts

/-- The sink enters what it is given in the log, and never detaches. -/
structure Monitor.Logs (m : Monitor σ) (log : σ → List Notice) : Prop where
  logged : ∀ world notice, log (m.sink world notice).1 = log world ++ [notice]
  attached : ∀ world notice, (m.sink world notice).2 ≠ .detach

namespace Diagnostics

variable {log : σ → List Notice} {m : Monitor σ} {budget : Nat}

theorem deliver_outlasts (logs : m.Logs log) (notice : Notice) :
    Outlasts log id (deliver m notice) (deliver (m.withBudget budget) notice) := by
  refine Outlasts.same fun d => ?_
  have logged := logs.logged d.world notice
  have attached := logs.attached d.world notice
  unfold deliver
  split
  · exact .refl log d
  · have before : log d.world <+: log (m.sink d.world notice).1 := logged ▸ List.prefix_append ..
    rcases answered : m.sink d.world notice with ⟨world, _ | _ | reason⟩ <;>
      rw [answered] at before attached
    · exact ⟨before, id⟩
    · exact absurd rfl attached
    · exact ⟨before, id⟩

theorem introduce_outlasts (logs : m.Logs log) (notice : Notice) :
    Outlasts log id (introduce m notice) (introduce (m.withBudget budget) notice) := by
  intro d
  simp only [introduce]
  split
  · exact deliver_outlasts logs _ d
  · exact Outlasts.pure () d

/-- The error that uses up the smaller budget is charged under the larger one as well. -/
theorem charge_outlasts (log : σ → List Notice) (enough : m.budget ≤ budget) (notice : Notice) :
    Outlasts log id (charge m notice) (charge (m.withBudget budget) notice) := by
  intro d
  have entered : d.Onward log (d.charged notice) := .of_same log rfl rfl
  rw [charge_eq, charge_eq]
  by_cases spent : notice.level.isError ∧ m.budget ≤ (d.charged notice).report.errors
  · rw [if_pos spent]
    split
    all_goals exact ⟨entered, .inr ⟨_, _, rfl, .refl log _⟩⟩
  · rw [if_neg spent, if_neg fun full => spent ⟨full.1, Nat.le_trans enough full.2⟩]
    exact ⟨entered, .inl rfl⟩

theorem send_outlasts (logs : m.Logs log) (enough : m.budget ≤ budget) (notice : Notice) :
    Outlasts log id (send m notice) (send (m.withBudget budget) notice) :=
  (introduce_outlasts logs notice).bind fun _ =>
    (deliver_outlasts logs notice).bind fun _ => charge_outlasts log enough notice

theorem apply_outlasts (logs : m.Logs log) (enough : m.budget ≤ budget) (e : Effect)
    (span : Span) : Outlasts log id (apply m e span) (apply (m.withBudget budget) e span) := by
  intro d
  have moved (pending : Pending) (crumbs : Breadcrumbs) :
      d.Onward log { d with pending, crumbs } := .of_same log rfl rfl
  have refusal : refusal? (m.withBudget budget) e span d = refusal? m e span d := rfl
  have told : notice? (m.withBudget budget) e span d = notice? m e span d := rfl
  rw [apply_eq, apply_eq, refusal, told]
  cases refusal? m e span d with
  | some fault => exact Outlasts.throw _ d
  | none =>
    cases notice? m e span d with
    | some notice => exact (send_outlasts logs enough notice _).of_view (moved _ _)
    | none => exact ⟨moved _ _, .inl rfl⟩

theorem flushAbandoned_outlasts (logs : m.Logs log) (enough : m.budget ≤ budget) :
    Outlasts log id (flushAbandoned m) (flushAbandoned (m.withBudget budget)) := by
  refine Outlasts.get fun d => ?_
  refine Outlasts.bind (Outlasts.same fun _ => .of_same log rfl rfl) fun _ => ?_
  exact Outlasts.forM (fun (a : Abandoned) => send_outlasts logs enough a.entry.notice) _

theorem deliver_adds (logs : m.Logs log) {d : Diagnostics σ} (attached : d.detached = false)
    (notice : Notice) :
    Ends (fun _ d' => log d'.world = log d.world ++ [notice] ∧ d'.detached = false)
      (fun _ => False) (deliver m notice d) := by
  have logged := logs.logged d.world notice
  have keeps := logs.attached d.world notice
  unfold deliver
  rw [if_neg (by simp [attached])]
  rcases answered : m.sink d.world notice with ⟨world, _ | _ | reason⟩ <;>
    rw [answered] at logged keeps
  · exact ⟨logged, attached⟩
  · exact absurd rfl keeps
  · trivial

/-- The closing pair comes last. -/
theorem announceAbort_adds (logs : m.Logs log) (restatement : Option String) {d : Diagnostics σ}
    (attached : d.detached = false) :
    Ends (fun _ d' => ∃ restated, log d'.world = log d.world ++ closingPair restated)
      (fun _ => False) (announceAbort m restatement d) := by
  let quiet : Diagnostics σ := { d with last := none }
  change Ends _ _ ((deliver m ⟨.fatal "Too many errors found. Stopping parsing.", 0⟩ >>= fun _ =>
    deliver m ⟨.fatal (restatement.getD (d.last.getD "")), 0⟩ >>= fun _ =>
      modify fun d => { d with report.highest := max d.report.highest .fatal }) quiet)
  refine Ends.bind (deliver_adds (d := quiet) logs attached _) ?_
  rintro _ d₁ ⟨first, still⟩
  refine Ends.bind (deliver_adds (d := d₁) logs still _) ?_
  rintro _ d₂ ⟨second, -⟩
  exact ⟨restatement.getD (d.last.getD ""), by rw [second, first, List.append_assoc]; rfl⟩

theorem announceAbort_outlasts (logs : m.Logs log) (restatement : Option String) :
    Outlasts log id (announceAbort m restatement) (announceAbort m restatement) := by
  refine Outlasts.get fun d => ?_
  refine Outlasts.bind (Outlasts.same fun _ => .of_same log rfl rfl) fun _ => ?_
  refine Outlasts.bind (deliver_outlasts logs _) fun _ => ?_
  refine Outlasts.bind (deliver_outlasts logs _) fun _ => ?_
  exact Outlasts.same fun _ => .of_same log rfl rfl

end Diagnostics

namespace Matching

variable {log : σ → List Notice}

theorem onDiagnostics_outlasts {op op' : Diagnosing σ β}
    (outlasts : Outlasts log id op op') :
    Outlasts log (Matching.diagnostics (α := α)) (onDiagnostics op) (onDiagnostics op') := by
  intro s
  have reads (op : Diagnosing σ β) : onDiagnostics (α := α) op s =
      onDiagnostics (fun _ => op s.diagnostics) s := rfl
  rw [reads op, reads op']
  refine (outlasts s.diagnostics).map (f := fun r => onDiagnostics (fun _ => r) s) (.refl log _)
    (fun r => ?_) fun errors d => ⟨_, rfl, rfl⟩
  cases r <;> exact .refl log _

theorem attempt_outlasts {body body' : MatchM σ α (Option Nat)}
    (outlasts : Outlasts log diagnostics body body') (pos : Nat) :
    Outlasts log diagnostics (attempt body pos) (attempt body' pos) := by
  intro s
  have closes (body : MatchM σ α (Option Nat)) : attempt body pos s = s.close pos (body s) := by
    unfold attempt close
    rcases body s with ⟨_ | next, s'⟩ | ⟨stop, s'⟩ <;> rfl
  rw [closes, closes]
  refine (outlasts s).map (.refl log _) (fun r => ?_) fun errors s' => ⟨s', rfl, rfl⟩
  rcases r with ⟨_ | next, s'⟩ | ⟨stop, s'⟩ <;> exact .of_same log rfl rfl

theorem record_outlasts {body body' : MatchM σ α (Option Nat)}
    (outlasts : Outlasts log diagnostics body body') (action : α) (pos : Nat) :
    Outlasts log diagnostics (record body action pos) (record body' action pos) := by
  rintro ⟨events, d⟩
  have records (body : MatchM σ α (Option Nat)) : record body action pos ⟨events, d⟩ =
      record (fun _ => body ⟨events.push .placeholder, d⟩) action pos ⟨events, d⟩ := rfl
  rw [records body, records body']
  refine (outlasts ⟨events.push .placeholder, d⟩).map
    (f := fun r => record (fun _ => r) action pos ⟨events, d⟩) (.refl log _) (fun r => ?_)
    fun errors s => ⟨s, rfl, rfl⟩
  rcases r with ⟨_ | next, s⟩ | ⟨stop, s⟩ <;> exact .of_same log rfl rfl

theorem iterate_outlasts {body body' : Nat → MatchM σ α (Option Nat)}
    (outlasts : ∀ pos, Outlasts log diagnostics (body pos) (body' pos)) (limit pos : Nat) :
    Outlasts log diagnostics (iterate body limit pos) (iterate body' limit pos) := by
  intro s
  have step (body : Nat → MatchM σ α (Option Nat)) : iterate body limit pos =
      body pos >>= fun m =>
        (m.filter fun next => pos < next ∧ next ≤ limit).elim (pure pos) (iterate body limit) := by
    funext s
    rw [iterate, bind_apply]
    rcases body pos s with ⟨_ | next, s'⟩ | ⟨stop, s'⟩
    · rfl
    · by_cases onward : pos < next ∧ next ≤ limit
      · simp [Option.filter, onward]
      · simp only [if_neg onward, Option.filter, decide_eq_false onward]
        rfl
    · rfl
  rw [step body, step body']
  refine Outlasts.bind (outlasts pos) (fun m => ?_) s
  cases m with
  | none => exact Outlasts.pure _
  | some next =>
    by_cases onward : pos < next ∧ next ≤ limit
    · simp only [Option.filter, decide_eq_true onward, if_true, Option.elim]
      exact iterate_outlasts outlasts limit next
    · simp only [Option.filter, decide_eq_false onward]
      exact Outlasts.pure _
termination_by limit - pos

/-- The matcher under the smaller budget and under the larger one. -/
theorem perform_outlasts {subject : Subject σ} {budget : Nat} (logs : subject.monitor.Logs log)
    (enough : subject.monitor.budget ≤ budget) (e : Effect) (start stop : Nat) :
    Outlasts log (Matching.diagnostics (α := α)) (perform subject e start stop)
      (perform (subject.withBudget budget) e start stop) := by
  have same : (subject.withBudget budget).source = subject.source := rfl
  unfold perform
  rw [same]
  cases Span.between subject.source start stop with
  | ok span => exact onDiagnostics_outlasts (Diagnostics.apply_outlasts logs enough e span)
  | error fault => exact Outlasts.throw _

end Matching

section Rules

open Matching

variable {log : σ → List Notice} {subject : Subject σ} {budget : Nat}

theorem Rule.leaf_outlasts (bounded : subject.Bounded) (log : σ → List Notice) {rule : Rule α}
    {pos : Nat} {m : Option Nat} (found : rule.leaf? subject.input pos = some m) (silent : Bool) :
    Outlasts log diagnostics (rule.step subject silent pos)
      (rule.step (subject.withBudget budget) silent pos) := by
  intro s
  rw [step_leaf bounded found, step_leaf (bounded.withBudget budget) found]
  exact ⟨.refl log _, .inl rfl⟩

theorem Rule.step_outlasts (bounded : subject.Bounded) (logs : subject.monitor.Logs log)
    (enough : subject.monitor.budget ≤ budget) (rule : Rule α) (silent : Bool) (pos : Nat) :
    Outlasts log diagnostics (rule.step subject silent pos)
      (rule.step (subject.withBudget budget) silent pos) := by
  induction rule generalizing silent pos with
  | empty | nothing | literal | set | endOfInput | skipTo => exact leaf_outlasts bounded log rfl silent
  | seq a b iha ihb =>
    refine (attempt_outlasts (iha silent pos) pos).bind fun m => ?_
    cases m with
    | none => exact Outlasts.pure _
    | some next => exact attempt_outlasts (ihb silent next) next
  | choice a b iha ihb =>
    refine (attempt_outlasts (iha silent pos) pos).bind fun m => ?_
    cases m with
    | none => exact attempt_outlasts (ihb silent pos) pos
    | some next => exact Outlasts.pure _
  | difference a b iha ihb =>
    refine (attempt_outlasts (iha silent pos) pos).bind fun m => ?_
    cases m with
    | none => exact Outlasts.pure _
    | some next =>
      refine (attempt_outlasts (ihb true pos) pos).bind fun m => ?_
      cases m <;> exact Outlasts.pure _
  | optional a ih =>
    exact (attempt_outlasts (ih silent pos) pos).bind fun _ => Outlasts.pure _
  | many a ih =>
    have part (pos : Nat) := attempt_outlasts (ih silent pos) pos
    exact (iterate_outlasts part _ pos).bind fun _ => Outlasts.pure _
  | many1 a ih =>
    have part (pos : Nat) := attempt_outlasts (ih silent pos) pos
    refine (part pos).bind fun m => ?_
    cases m with
    | none => exact Outlasts.pure _
    | some next =>
      by_cases same : next = pos
      · simp only [if_pos same]
        exact Outlasts.pure _
      · simp only [if_neg same]
        exact (iterate_outlasts part _ next).bind fun _ => Outlasts.pure _
  | action a act ih =>
    cases silent with
    | true => exact attempt_outlasts (ih true pos) pos
    | false => exact record_outlasts (attempt_outlasts (ih false pos) pos) act pos
  | effect a e ih =>
    cases silent with
    | true => exact attempt_outlasts (ih true pos) pos
    | false =>
      refine (attempt_outlasts (ih false pos) pos).bind fun m => ?_
      cases m with
      | none => exact Outlasts.pure _
      | some next => exact (perform_outlasts logs enough e pos next).bind fun _ => Outlasts.pure _

namespace Driver

/-- What follows the match, where the replay takes nothing out of the log. -/
theorem conclude_outlasts (logs : subject.monitor.Logs log)
    (enough : subject.monitor.budget ≤ budget) {host : List (Tree α) → EStateM Fault σ Bool}
    (replays : ∀ forest world, log world <+: log (lastState (host forest world)))
    (m : Option Nat) :
    Outlasts log diagnostics (conclude subject host m)
      (conclude (subject.withBudget budget) host m) := by
  cases m with
  | none =>
    refine Outlasts.bind ?_ fun _ => Outlasts.bind ?_ fun _ => Outlasts.pure _
    · exact onDiagnostics_outlasts (Diagnostics.flushAbandoned_outlasts logs enough)
    · exact onDiagnostics_outlasts (Diagnostics.send_outlasts logs enough _)
  | some next =>
    intro s
    have same : (subject.withBudget budget).source = subject.source := rfl
    have emptied : s.diagnostics.Onward log s.drained.diagnostics := .of_same log rfl rfl
    rw [conclude_some, conclude_some, same]
    split
    · exact ⟨emptied, .inl rfl⟩
    · cases Journal.forest subject.source s.events.toList with
      | error fault => exact ⟨emptied, .inl rfl⟩
      | ok forest =>
        have kept := replays forest s.drained.diagnostics.world
        refine ⟨?_, .inl rfl⟩
        simp only [bind_apply, replay]
        rcases read : host forest s.drained.diagnostics.world with ⟨valid, world⟩ | ⟨fault, world⟩ <;>
          rw [read] at kept <;> exact ⟨kept, id⟩

end Driver

end Rules

namespace Driver

variable {log : σ → List Notice} {d : Driver} {host : Host σ α} {source : Source} {stop : Nat}

/-- What closes a parse takes nothing back. -/
theorem announced_onward {m : Monitor σ} (logs : m.Logs log) (restatement : Option String)
    (body : MatchM σ α Outcome) (s : Matching σ α) :
    (lastState (body s)).diagnostics.Onward log
      (lastState (announced restatement m body s)).diagnostics := by
  unfold announced
  rcases body s with ⟨outcome, s₁⟩ | ⟨errors | fault, s₁⟩
  · exact .refl log _
  · have closing := Matching.onDiagnostics_outlasts (α := α)
      (Diagnostics.announceAbort_outlasts logs restatement)
    exact (closing.bind (fun _ => Outlasts.pure Outcome.aborted) s₁).onward
  · exact .refl log _

theorem announced_adds {m : Monitor σ} (logs : m.Logs log) (restatement : Option String)
    {body : MatchM σ α Outcome} {s s₁ : Matching σ α} {errors : Nat}
    (stopped : body s = .error (.aborted errors) s₁) (attached : s₁.diagnostics.detached = false) :
    Ends (fun outcome s₂ => outcome = .aborted ∧ ∃ restated,
        log s₂.diagnostics.world = log s₁.diagnostics.world ++ closingPair restated)
      (fun _ => False) (announced restatement m body s) := by
  simp only [announced, stopped]
  refine Ends.bind (Ends.on_diagnostics (Diagnostics.announceAbort_adds logs restatement attached)) ?_
  rintro _ s₂ ⟨-, added⟩
  exact ⟨rfl, added⟩

theorem close_world (d : Driver) (r : EStateM.Result Stop (Matching σ α) Outcome) :
    (d.close r).world = (lastState r).diagnostics.world := by
  rcases r with ⟨outcome, s⟩ | ⟨errors | fault, s⟩ <;> rfl

/-- Only a parse whose budget is used up is aborted. -/
theorem body_going (d : Driver) (host : Host σ α) (rule : Rule α) (source : Source)
    (start stop : Nat) (s : Matching σ α) :
    Ends (fun outcome _ => outcome ≠ .aborted) (fun _ => True)
      (d.body host rule source start stop s) := by
  have anyhow {γ : Type} (r : EStateM.Result Stop (Matching σ α) γ) :
      Ends (fun _ _ => True) (fun _ => True) r := by
    rcases r with ⟨_, s⟩ | ⟨errors | fault, s⟩ <;> trivial
  refine Ends.bind (anyhow _) fun m s₁ _ => ?_
  cases m with
  | none => exact Ends.bind (anyhow _) fun _ s₂ _ => Ends.bind (anyhow _) fun _ _ _ => nofun
  | some next =>
    refine Ends.bind (anyhow _) fun pending s₂ _ => ?_
    by_cases waiting : 0 < pending
    · simp only [if_pos waiting]
      trivial
    simp only [if_neg waiting]
    refine Ends.bind (anyhow _) fun got s₃ _ => ?_
    cases Journal.forest (d.subject host source stop).source got.events.toList with
    | error fault => trivial
    | ok forest =>
      exact Ends.bind (anyhow _) fun valid _ _ => Outcome.classify_ne_aborted valid _

section Budgets

variable (budget : Nat) (rule : Rule α) (start : Nat)
  (sinks : host.sink { d with budget, busy := true } = host.sink d.inside)
  (replays : host.replay { d with budget, busy := true } = host.replay d.inside)
  (enough : d.budget ≤ budget) (logs : (d.monitor host source stop).Logs log)
  (reads : ∀ forest world, log world <+: log (lastState (host.replay d.inside forest world)))
include sinks replays enough logs reads

theorem body_outlasts :
    Outlasts log Matching.diagnostics (d.body host rule source start stop)
      (body { d with budget } host rule source start stop) := by
  have same : subject { d with budget } host source stop =
      (d.subject host source stop).withBudget budget := by
    unfold subject monitor inside
    rw [sinks]
    rfl
  have read : host.replay (inside { d with budget }) = host.replay d.inside := replays
  unfold body
  rw [same, read]
  have bounded := d.subject_bounded host source stop
  exact (Matching.attempt_outlasts (Rule.step_outlasts bounded logs enough rule false start)
    start).bind fun m => conclude_outlasts logs enough reads m

/-- A parse that is not aborted is the parse under every larger budget, and what one that is aborted
has told before its closing pair is told under every larger budget too. -/
theorem parse_outlasts (idle : d.busy = false) (accepted : refuse? source.size start stop = none)
    {world : σ} {outcome : Outcome}
    (returned : (d.parse host rule source start stop world).outcome = .ok outcome) :
    let few := d.parse host rule source start stop world
    let many := parse { d with budget } host rule source start stop world
    (outcome ≠ .aborted → many = { few with driver := { few.driver with budget } }) ∧
    (outcome = .aborted → ∃ sent restated, log few.world = sent ++ closingPair restated ∧
      sent <+: log many.world) := by
  intro few many
  have few_eq : few = _ := parse_eq idle accepted host rule world
  have many_eq : many = _ := parse_eq (d := { d with budget }) idle accepted host rule world
  have given : (monitor { d with budget } host source stop).sink =
      (d.monitor host source stop).sink := sinks
  have logs' : (monitor { d with budget } host source stop).Logs log :=
    ⟨fun w notice => given ▸ logs.logged w notice, fun w notice => given ▸ logs.attached w notice⟩
  obtain ⟨-, follows⟩ :=
    body_outlasts budget rule start sinks replays enough logs reads (fresh α world)
  have onward := (body_outlasts d.budget rule start rfl rfl (Nat.le_refl _) logs reads
    (fresh α world)).onward
  have going := d.body_going host rule source start stop (fresh α world)
  have later := announced_onward logs' d.restatement
    (body { d with budget } host rule source start stop) (fresh α world)
  have told := congrArg (·.outcome) few_eq.symm
  rw [returned] at told
  rcases run : d.body host rule source start stop (fresh α world) with
    ⟨result, s⟩ | ⟨errors | fault, s⟩ <;> rw [run] at follows going onward
  · have same := follows.resolve_right nofun
    simp only [announced, run, close] at few_eq told
    simp only [announced, same, close] at many_eq
    cases told
    refine ⟨fun _ => ?_, fun stopped => absurd stopped going⟩
    rw [many_eq, few_eq]
  · have adds := announced_adds logs d.restatement run (onward.attached rfl)
    obtain ⟨s₂, finished, rfl, restated, added⟩ := close_ok adds told
    refine ⟨fun going => absurd rfl going, fun _ => ⟨log s.diagnostics.world, restated, ?_, ?_⟩⟩
    · rw [few_eq, close_world, finished]
      exact added
    · rw [many_eq, close_world]
      rcases follows with same | ⟨errors, s₁, stopped, before⟩
      · rw [same] at later
        exact later.heard
      · cases stopped
        exact before.heard.trans later.heard
  · simp only [announced, run, close] at told
    cases told

end Budgets

end Driver

end Backtrack
