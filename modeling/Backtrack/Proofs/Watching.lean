import Backtrack.Proofs.Effects
import Backtrack.Proofs.Parsing

/-! Watching the caller's functions. The engine keeps the caller's state, and whether the sink is
detached, but hands both on without a look at the state. So where one caller does to the image of a
state what another does to the state, their parses are images of each other. A watched host notes
every message that the sink receives and counts the replays, and apart from that it does as the host
does: a parse with the watched host is the same parse. -/
namespace Backtrack

variable {σ τ α β : Type}

/-- `y` does to the image of the state `s` what `x` does to `s`. -/
def SimulatesAt {A B ε : Type} (g : A → B) (s : A) (x : EStateM ε A β) (y : EStateM ε B β) : Prop :=
  y (g s) = match x s with
    | .ok result s' => .ok result (g s')
    | .error stop s' => .error stop (g s')

/-- `y` does to the image of a state what `x` does to the state. -/
def Simulates {A B ε : Type} (g : A → B) (x : EStateM ε A β) (y : EStateM ε B β) : Prop :=
  ∀ s, y (g s) = match x s with
    | .ok result s' => .ok result (g s')
    | .error stop s' => .error stop (g s')

theorem SimulatesAt.bind {A B ε γ : Type} {g : A → B} {s : A} {x : EStateM ε A β}
    {y : EStateM ε B β} {f : β → EStateM ε A γ} {f' : β → EStateM ε B γ}
    (first : SimulatesAt g s x y)
    (rest : ∀ b s', x s = .ok b s' → SimulatesAt g s' (f b) (f' b)) :
    SimulatesAt g s (x >>= f) (y >>= f') := by
  unfold SimulatesAt at first ⊢
  rw [bind_apply, bind_apply, first]
  cases run : x s with
  | ok result s' => exact rest result s' run
  | error => rfl

namespace Simulates

variable {A B ε γ : Type} {g : A → B}

theorem pure (result : β) :
    Simulates g (pure result : EStateM ε A β) (pure result : EStateM ε B β) := fun _ => rfl

theorem throw (stop : ε) :
    Simulates g (throw stop : EStateM ε A β) (throw stop : EStateM ε B β) := fun _ => rfl

theorem modify {h : A → A} {h' : B → B} (same : ∀ a, h' (g a) = g (h a)) :
    Simulates g (modify h : EStateM ε A PUnit) (modify h' : EStateM ε B PUnit) :=
  fun s => congrArg (EStateM.Result.ok PUnit.unit) (same s)

theorem get {f : A → EStateM ε A β} {f' : B → EStateM ε B β}
    (rest : ∀ a, Simulates g (f a) (f' (g a))) : Simulates g (get >>= f) (get >>= f') :=
  fun s => rest s s

theorem bind {x : EStateM ε A β} {y : EStateM ε B β} {f : β → EStateM ε A γ}
    {f' : β → EStateM ε B γ} (first : Simulates g x y) (rest : ∀ b, Simulates g (f b) (f' b)) :
    Simulates g (x >>= f) (y >>= f') :=
  fun s => SimulatesAt.bind (first s) fun b s' _ => rest b s'

theorem forM {items : List γ} {f : γ → EStateM ε A PUnit} {f' : γ → EStateM ε B PUnit}
    (each : ∀ c, Simulates g (f c) (f' c)) : Simulates g (items.forM f) (items.forM f') := by
  induction items with
  | nil => exact pure _
  | cons c items ih => exact (each c).bind fun _ => ih

end Simulates

/-- Puts another caller in the place of the caller: whether it is detached, and its state. -/
def Diagnostics.relay (f : Bool × σ → Bool × τ) (d : Diagnostics σ) : Diagnostics τ :=
  ⟨d.pending, d.crumbs, d.report, d.last, (f (d.detached, d.world)).1, (f (d.detached, d.world)).2⟩

def Matching.relay (f : Bool × σ → Bool × τ) (s : Matching σ α) : Matching τ α :=
  ⟨s.events, s.diagnostics.relay f⟩

/-- The same state of attachment, and the image of the caller's state. -/
def onWorld (f : σ → τ) (caller : Bool × σ) : Bool × τ := (caller.1, f caller.2)

def Monitor.withSink (m : Monitor σ) (sink : τ → Notice → τ × Reply) : Monitor τ :=
  ⟨m.lines, m.budget, sink⟩

def Subject.withSink (s : Subject σ) (sink : τ → Notice → τ × Reply) : Subject τ :=
  ⟨s.source, s.stop, s.monitor.withSink sink⟩

/-- Messages reach the other caller as they reach the caller. -/
def Monitor.Relays (f : Bool × σ → Bool × τ) (m : Monitor σ) (sink : τ → Notice → τ × Reply) :
    Prop :=
  ∀ notice, Simulates (Diagnostics.relay f) (Diagnostics.deliver m notice)
    (Diagnostics.deliver (m.withSink sink) notice)

/-- The sink does to the image of a world what the sink of `m` does to the world. -/
theorem Monitor.relays_onWorld {f : σ → τ} {m : Monitor σ} {sink : τ → Notice → τ × Reply}
    (maps : ∀ world notice,
      sink (f world) notice = (f (m.sink world notice).1, (m.sink world notice).2)) :
    m.Relays (onWorld f) sink := by
  intro notice d
  by_cases detached : d.detached = true
  · simp [Diagnostics.deliver, Diagnostics.relay, onWorld, detached]
  · have answer := maps d.world notice
    simp only [Diagnostics.deliver, Diagnostics.relay, onWorld, detached, withSink, answer]
    rcases m.sink d.world notice with ⟨world, _ | _ | reason⟩ <;> rfl

namespace Diagnostics

variable {f : Bool × σ → Bool × τ} {m : Monitor σ} {sink : τ → Notice → τ × Reply}

theorem introduce_simulates (relays : m.Relays f sink) (notice : Notice) :
    Simulates (relay f) (introduce m notice) (introduce (m.withSink sink) notice) := by
  intro d
  have same : (d.relay f).crumbs = d.crumbs := rfl
  simp only [introduce, same]
  split
  · exact relays _ d
  · rfl

theorem charge_simulates (sink : τ → Notice → τ × Reply) (notice : Notice) :
    Simulates (relay f) (charge m notice) (charge (m.withSink sink) notice) := by
  intro d
  have same : (d.relay f).charged notice = (d.charged notice).relay f := rfl
  rw [charge_eq, charge_eq, same]
  by_cases spent : notice.level.isError ∧ m.budget ≤ (d.charged notice).report.errors
  · rw [if_pos spent]
    exact if_pos spent
  · rw [if_neg spent]
    exact if_neg spent

theorem send_simulates (relays : m.Relays f sink) (notice : Notice) :
    Simulates (relay f) (send m notice) (send (m.withSink sink) notice) :=
  (introduce_simulates relays notice).bind fun _ =>
    (relays notice).bind fun _ => charge_simulates sink notice

theorem apply_simulates (relays : m.Relays f sink) (e : Effect) (span : Span) :
    Simulates (relay f) (apply m e span) (apply (m.withSink sink) e span) := by
  intro d
  have refusal : refusal? (m.withSink sink) e span (d.relay f) = refusal? m e span d := rfl
  have told : notice? (m.withSink sink) e span (d.relay f) = notice? m e span d := rfl
  rw [apply_eq, apply_eq, refusal, told]
  cases refusal? m e span d with
  | some fault => rfl
  | none =>
    cases notice? m e span d with
    | some notice => exact send_simulates relays notice { d with pending := pendingAfter m e span d }
    | none => rfl

theorem flushAbandoned_simulates (relays : m.Relays f sink) :
    Simulates (relay f) (flushAbandoned m) (flushAbandoned (m.withSink sink)) := by
  refine Simulates.get fun d => ?_
  refine Simulates.bind (Simulates.modify fun _ => rfl) fun _ => ?_
  exact Simulates.forM fun (a : Abandoned) => send_simulates relays a.entry.notice

theorem announceAbort_simulates (relays : m.Relays f sink) (restatement : Option String) :
    Simulates (relay f) (announceAbort m restatement)
      (announceAbort (m.withSink sink) restatement) := by
  refine Simulates.get fun d => ?_
  refine Simulates.bind (Simulates.modify fun _ => rfl) fun _ => ?_
  refine Simulates.bind (relays _) fun _ => ?_
  exact Simulates.bind (relays _) fun _ => Simulates.modify fun _ => rfl

end Diagnostics

section Matching

variable {f : Bool × σ → Bool × τ} {subject : Subject σ} {sink : τ → Notice → τ × Reply}

theorem Subject.holds_withSink (bytes : Bytes) (pos : Nat) :
    (subject.withSink sink).holds bytes pos = subject.holds bytes pos := by
  induction bytes generalizing pos with
  | nil => rfl
  | cons b bytes ih =>
    simp only [holds, ih]
    rfl

theorem Subject.after?_withSink (terminators : CharSet) (pos : Nat) :
    (subject.withSink sink).after? terminators pos = subject.after? terminators pos := by
  rw [Subject.after?_eq, Subject.after?_eq]
  rfl

namespace Matching

theorem onDiagnostics_simulates {op : Diagnosing σ β} {op' : Diagnosing τ β}
    (simulates : Simulates (Diagnostics.relay f) op op') :
    Simulates (relay (α := α) f) (onDiagnostics op) (onDiagnostics op') := by
  intro s
  simp only [onDiagnostics, relay, simulates s.diagnostics]
  cases op s.diagnostics <;> rfl

theorem attempt_simulates {body : MatchM σ α (Option Nat)} {body' : MatchM τ α (Option Nat)}
    (simulates : Simulates (relay f) body body') (pos : Nat) :
    Simulates (relay f) (attempt body pos) (attempt body' pos) := by
  intro s
  simp only [attempt, simulates s]
  rcases body s with ⟨_ | next, s'⟩ | ⟨stop, s'⟩ <;> rfl

theorem iterate_simulates {body : Nat → MatchM σ α (Option Nat)}
    {body' : Nat → MatchM τ α (Option Nat)}
    (simulates : ∀ pos, Simulates (relay f) (body pos) (body' pos)) (limit pos : Nat) :
    Simulates (relay f) (iterate body limit pos) (iterate body' limit pos) := by
  intro s
  rw [iterate, iterate, simulates pos s]
  rcases body pos s with ⟨_ | next, s'⟩ | ⟨stop, s'⟩
  · rfl
  · by_cases onward : pos < next ∧ next ≤ limit
    · simp only [if_pos onward]
      exact iterate_simulates simulates limit next s'
    · simp only [if_neg onward]
  · rfl
termination_by limit - pos

theorem record_simulates {body : MatchM σ α (Option Nat)} {body' : MatchM τ α (Option Nat)}
    (simulates : Simulates (relay f) body body') (action : α) (pos : Nat) :
    Simulates (relay f) (record body action pos) (record body' action pos) := by
  intro s
  have reserved := simulates ⟨s.events.push .placeholder, s.diagnostics⟩
  simp only [record, relay] at reserved ⊢
  rw [reserved]
  rcases body ⟨s.events.push .placeholder, s.diagnostics⟩ with ⟨_ | next, s'⟩ | ⟨stop, s'⟩ <;> rfl

theorem perform_simulates (relays : subject.monitor.Relays f sink) (e : Effect) (start stop : Nat) :
    Simulates (relay (α := α) f) (perform subject e start stop)
      (perform (subject.withSink sink) e start stop) := by
  have same : (subject.withSink sink).source = subject.source := rfl
  unfold perform
  rw [same]
  cases Span.between subject.source start stop with
  | ok span => exact onDiagnostics_simulates (Diagnostics.apply_simulates relays e span)
  | error fault => exact Simulates.throw _

end Matching

theorem Rule.repeat_simulates {a : Rule α} {silent : Bool}
    (part : ∀ pos, Simulates (Matching.relay f) (a.step subject silent pos)
      (a.step (subject.withSink sink) silent pos)) (pos : Nat) :
    Simulates (Matching.relay f)
      (Matching.iterate (fun pos => Matching.attempt (a.step subject silent pos) pos)
        subject.stop pos)
      (Matching.iterate
        (fun pos => Matching.attempt (a.step (subject.withSink sink) silent pos) pos)
        subject.stop pos) :=
  Matching.iterate_simulates (fun pos => Matching.attempt_simulates (part pos) pos) _ pos

theorem Rule.step_simulates (relays : subject.monitor.Relays f sink) (rule : Rule α) (silent : Bool)
    (pos : Nat) :
    Simulates (Matching.relay f) (rule.step subject silent pos)
      (rule.step (subject.withSink sink) silent pos) := by
  induction rule generalizing silent pos with
  | empty | nothing | set | endOfInput => exact Simulates.pure _
  | literal bytes =>
    simp only [step, Subject.holds_withSink]
    exact Simulates.pure _
  | skipTo terminators =>
    simp only [step, Subject.after?_withSink]
    exact Simulates.pure _
  | seq a b iha ihb =>
    refine Simulates.bind (Matching.attempt_simulates (iha silent pos) pos) fun m => ?_
    cases m with
    | none => exact Simulates.pure _
    | some next => exact Matching.attempt_simulates (ihb silent next) next
  | choice a b iha ihb =>
    refine Simulates.bind (Matching.attempt_simulates (iha silent pos) pos) fun m => ?_
    cases m with
    | none => exact Matching.attempt_simulates (ihb silent pos) pos
    | some next => exact Simulates.pure _
  | difference a b iha ihb =>
    refine Simulates.bind (Matching.attempt_simulates (iha silent pos) pos) fun m => ?_
    cases m with
    | none => exact Simulates.pure _
    | some next =>
      refine Simulates.bind (Matching.attempt_simulates (ihb true pos) pos) fun m => ?_
      cases m <;> exact Simulates.pure _
  | optional a ih =>
    exact Simulates.bind (Matching.attempt_simulates (ih silent pos) pos) fun _ => Simulates.pure _
  | many a ih => exact Simulates.bind (repeat_simulates (ih silent) pos) fun _ => Simulates.pure _
  | many1 a ih =>
    refine Simulates.bind (Matching.attempt_simulates (ih silent pos) pos) fun m => ?_
    cases m with
    | none => exact Simulates.pure _
    | some next =>
      by_cases same : next = pos
      · simp only [if_pos same]
        exact Simulates.pure _
      · simp only [if_neg same]
        exact Simulates.bind (repeat_simulates (ih silent) next) fun _ => Simulates.pure _
  | action a act ih =>
    cases silent with
    | true => exact Matching.attempt_simulates (ih true pos) pos
    | false =>
      have part := Matching.attempt_simulates (ih false pos) pos
      exact Matching.record_simulates part act pos
  | effect a e ih =>
    cases silent with
    | true => exact Matching.attempt_simulates (ih true pos) pos
    | false =>
      refine Simulates.bind (Matching.attempt_simulates (ih false pos) pos) fun m => ?_
      cases m with
      | none => exact Simulates.pure _
      | some next =>
        exact Simulates.bind (Matching.perform_simulates relays e pos next) fun _ => Simulates.pure _

end Matching

/-- What a watched host has seen, beside the state of the host. -/
structure Watched (σ : Type) where
  received : List Notice := []
  replays : Nat := 0
  world : σ

/-- The host with a note of each message that its sink receives and of each replay. -/
def Host.watched (host : Host σ α) : Host (Watched σ) α where
  sink driver w notice :=
    let (world, reply) := host.sink driver w.world notice
    ({ w with received := w.received ++ [notice], world }, reply)
  replay driver forest := fun w =>
    match host.replay driver forest w.world with
    | .ok valid world => .ok valid { w with replays := w.replays + 1, world }
    | .error fault world => .error fault { w with replays := w.replays + 1, world }

namespace Driver

theorem replay_simulates {f : σ → τ} {host : EStateM Fault σ Bool} {host' : EStateM Fault τ Bool}
    (simulates : Simulates f host host') :
    Simulates (Matching.relay (α := α) (onWorld f)) (replay host) (replay host') := by
  intro s
  simp only [replay, Matching.relay, Diagnostics.relay, onWorld, simulates s.diagnostics.world]
  cases host s.diagnostics.world <;> rfl

variable {f : Bool × σ → Bool × τ}

/-- What follows a failed match replays nothing. -/
theorem conclude_none_simulates {subject : Subject σ} {sink : τ → Notice → τ × Reply}
    (relays : subject.monitor.Relays f sink) (host : List (Tree α) → EStateM Fault σ Bool)
    (host' : List (Tree α) → EStateM Fault τ Bool) :
    Simulates (Matching.relay f) (conclude subject host none)
      (conclude (subject.withSink sink) host' none) := by
  refine Simulates.bind ?_ fun _ => Simulates.bind ?_ fun _ => Simulates.pure _
  · exact Matching.onDiagnostics_simulates (Diagnostics.flushAbandoned_simulates relays)
  · exact Matching.onDiagnostics_simulates (Diagnostics.send_simulates relays _)

theorem conclude_simulates {subject : Subject σ} {sink : τ → Notice → τ × Reply}
    (relays : subject.monitor.Relays f sink) {host : List (Tree α) → EStateM Fault σ Bool}
    {host' : List (Tree α) → EStateM Fault τ Bool}
    (replays : ∀ forest, Simulates (Matching.relay (α := α) f) (replay (host forest))
      (replay (host' forest))) (m : Option Nat) :
    Simulates (Matching.relay f) (conclude subject host m)
      (conclude (subject.withSink sink) host' m) := by
  cases m with
  | none => exact conclude_none_simulates relays host host'
  | some next =>
    intro s
    have depth : (s.relay f).diagnostics.pending.depth = s.diagnostics.pending.depth := rfl
    have read : Journal.forest (subject.withSink sink).source (s.relay f).events.toList =
        Journal.forest subject.source s.events.toList := rfl
    rw [conclude_some, conclude_some, depth, read]
    split
    · rfl
    · cases Journal.forest subject.source s.events.toList with
      | error fault => rfl
      | ok forest => exact ((replays forest).bind fun _ => Simulates.pure _) s.drained

theorem announced_simulates {m : Monitor σ} {sink : τ → Notice → τ × Reply}
    (relays : m.Relays f sink) {body : MatchM σ α Outcome} {body' : MatchM τ α Outcome}
    {s : Matching σ α} (simulates : SimulatesAt (Matching.relay f) s body body')
    (restatement : Option String) :
    SimulatesAt (Matching.relay f) s (announced restatement m body)
      (announced restatement (m.withSink sink) body') := by
  unfold SimulatesAt at simulates ⊢
  simp only [announced, simulates]
  rcases body s with ⟨outcome, s'⟩ | ⟨errors | fault, s'⟩
  · rfl
  · have closing := Matching.onDiagnostics_simulates (α := α)
      (Diagnostics.announceAbort_simulates relays restatement)
    exact closing.bind (fun _ => Simulates.pure Outcome.aborted) s'
  · rfl

/-- A caller that does to the image of a world what another does to the world has the same parse,
with the image of the world. -/
theorem parse_simulates (g : σ → τ) (d : Driver) (host : Host σ α) (host' : Host τ α)
    (sink : ∀ world notice, host'.sink d.inside (g world) notice =
      (g (host.sink d.inside world notice).1, (host.sink d.inside world notice).2))
    (replay : ∀ forest, Simulates g (host.replay d.inside forest) (host'.replay d.inside forest))
    (rule : Rule α) (source : Source) (start stop : Nat) (world : σ) :
    let parsed := d.parse host rule source start stop world
    d.parse host' rule source start stop (g world) =
      ⟨parsed.driver, g parsed.world, parsed.outcome⟩ := by
  intro parsed
  by_cases busy : d.busy = true
  · simp only [parsed, parse_busy busy]
  have idle : d.busy = false := by simpa using busy
  cases refused : refuse? source.size start stop with
  | some outcome => simp only [parsed, parse_refused idle refused]
  | none =>
    have relays : (d.monitor host source stop).Relays (onWorld g) (host'.sink d.inside) :=
      Monitor.relays_onWorld sink
    have body : Simulates (Matching.relay (onWorld g))
        (d.body host rule source start stop) (d.body host' rule source start stop) :=
      Simulates.bind
        (Matching.attempt_simulates (Rule.step_simulates relays rule false start) start)
        (conclude_simulates relays fun forest => replay_simulates (replay forest))
    have same := announced_simulates relays (body (fresh α world)) d.restatement
    simp only [parsed, parse_eq idle refused]
    refine (congrArg d.close same).trans ?_
    rcases announced d.restatement (d.monitor host source stop)
      (d.body host rule source start stop) (fresh α world) with
      ⟨outcome, s⟩ | ⟨errors | fault, s⟩ <;> rfl

/-- The sink on the worlds of the caller that it does not leave. -/
def confined {P : σ → Prop} (sink : σ → Notice → σ × Reply)
    (keeps : ∀ world notice, P world → P (sink world notice).1) (world : {world // P world})
    (notice : Notice) : {world // P world} × Reply :=
  (⟨(sink world.1 notice).1, keeps world.1 notice world.2⟩, (sink world.1 notice).2)

section Confined

variable {P : σ → Prop} {d : Driver} {host : Host σ α} {rule : Rule α} {source : Source}
  {start stop : Nat} {world : σ}
  (keeps : ∀ world notice, P world → P (host.sink d.inside world notice).1) (initial : P world)
include keeps initial

/-- The caller is in a world that its sink does not leave when the root rule has been matched. -/
theorem run_confined {m : Option Nat} {s : Matching σ α}
    (run : rule.run (d.subject host source stop) false start (fresh α world) = .ok m s) :
    P s.diagnostics.world := by
  let inner := (d.subject host source stop).withSink (confined (host.sink d.inside) keeps)
  have relays : inner.monitor.Relays (onWorld Subtype.val) (host.sink d.inside) :=
    Monitor.relays_onWorld fun _ _ => rfl
  have steps : Simulates (Matching.relay (onWorld Subtype.val)) (rule.step inner false start)
      (rule.step (d.subject host source stop) false start) :=
    Rule.step_simulates relays rule false start
  have same := Matching.attempt_simulates steps start (fresh α ⟨world, initial⟩)
  have image : rule.run (d.subject host source stop) false start (fresh α world) = _ := same
  rw [run] at image
  split at image
  · cases image
    exact Subtype.property _
  · cases image

/-- The caller ends in a world that its sink does not leave if nothing is replayed. -/
theorem parse_confined (idle : d.busy = false) (accepted : refuse? source.size start stop = none)
    (unmatched : ∀ next s, rule.run (d.subject host source stop) false start (fresh α world) ≠
      .ok (some next) s) :
    P (d.parse host rule source start stop world).world := by
  let inner := (d.subject host source stop).withSink (confined (host.sink d.inside) keeps)
  have relays : inner.monitor.Relays (onWorld Subtype.val) (host.sink d.inside) :=
    Monitor.relays_onWorld fun _ _ => rfl
  let start' : Matching {world // P world} α := fresh α ⟨world, initial⟩
  have matching : SimulatesAt (Matching.relay (onWorld Subtype.val)) start'
      (rule.run inner false start) (rule.run (d.subject host source stop) false start) :=
    Matching.attempt_simulates (Rule.step_simulates relays rule false start) start start'
  have body : SimulatesAt (Matching.relay (onWorld Subtype.val)) start'
      (do conclude inner (fun _ => pure true) (← rule.run inner false start))
      (d.body host rule source start stop) := by
    refine matching.bind fun m s' run => ?_
    cases m with
    | none => exact conclude_none_simulates relays _ (host.replay d.inside) s'
    | some next =>
      have image : rule.run (d.subject host source stop) false start (fresh α world) = _ := matching
      rw [run] at image
      exact absurd image (unmatched next _)
  have whole := announced_simulates relays body d.restatement
  have image : announced d.restatement (d.monitor host source stop)
      (d.body host rule source start stop) (fresh α world) = _ := whole
  rw [parse_eq idle accepted, image]
  split
  · exact Subtype.property _
  next stop s _ => cases stop <;> exact Subtype.property _

end Confined

/-- Watching a host changes nothing about a parse. -/
theorem parse_watched (d : Driver) (host : Host σ α) (rule : Rule α) (source : Source)
    (start stop : Nat) (world : σ) :
    let watched := d.parse host.watched rule source start stop { world }
    d.parse host rule source start stop world =
      ⟨watched.driver, watched.world.world, watched.outcome⟩ := by
  refine parse_simulates Watched.world d host.watched host (fun _ _ => rfl) ?_ rule source start stop
    { world }
  intro forest w
  simp only [Host.watched]
  cases host.replay d.inside forest w.world <;> rfl

end Driver

end Backtrack
