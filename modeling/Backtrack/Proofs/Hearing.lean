import Backtrack.Proofs.Shipped
import Backtrack.Proofs.Watching

/-! What a parse tells its caller, whoever listens. A scribe keeps every message; what another sink
makes of a parse is what it makes of the scribe's messages, one after another until it is detached.
So the course of a parse with a balanced rule, from its messages to its outcome and report, is the
same for all hosts that do not give up and judge a journal alike. -/
namespace Backtrack

variable {τ α : Type}

section Hearing

variable {sink : τ → Notice → τ × Reply} {notices : List Notice}

/-- A caller that may be detached is given a message. -/
def hear (sink : τ → Notice → τ × Reply) (caller : Bool × τ) (notice : Notice) : Bool × τ :=
  if caller.1 then caller
  else match sink caller.2 notice with
    | (world, .detach) => (true, world)
    | (world, _) => (false, world)

def hearAll (sink : τ → Notice → τ × Reply) (caller : Bool × τ) (notices : List Notice) :
    Bool × τ :=
  notices.foldl (hear sink) caller

@[simp] theorem hearAll_detached (world : τ) : hearAll sink (true, world) notices = (true, world) := by
  induction notices with
  | nil => rfl
  | cons notice notices ih => exact ih

@[simp] theorem hearAll_concat (caller : Bool × τ) (notice : Notice) :
    hearAll sink caller (notices ++ [notice]) = hear sink (hearAll sink caller notices) notice := by
  simp [hearAll]

/-- A scribe stands in for a sink that never gives up. -/
theorem Monitor.relays_hearing {m : Monitor (List Notice)}
    (scribe : ∀ notices notice, m.sink notices notice = (notices ++ [notice], .keep))
    (calm : ∀ world notice reason, (sink world notice).2 ≠ .crash reason) (world : τ) :
    m.Relays (fun caller => hearAll sink (caller.1, world) caller.2) sink := by
  intro notice d
  by_cases detached : d.detached = true
  · simp [Diagnostics.deliver, Diagnostics.relay, detached]
  · simp only [Diagnostics.deliver, Diagnostics.relay, withSink, scribe, detached]
    generalize heard : hearAll sink (false, world) d.world = caller
    obtain ⟨gone, now⟩ := caller
    have keeps := calm now notice
    simp only [Bool.false_eq_true, if_false, hearAll_concat, heard, hear]
    cases gone with
    | true => rfl
    | false =>
      rcases answered : sink now notice with ⟨next, _ | _ | reason⟩ <;> rw [answered] at keeps
      · rfl
      · rfl
      · exact absurd rfl (keeps reason)

end Hearing

namespace Driver

/-- Keeps every message, and judges journals. -/
def scribe (verdict : List (Tree α) → Bool) : Host (List Notice) α :=
  ⟨fun _ notices notice => (notices ++ [notice], .keep), fun _ forest => pure (verdict forest)⟩

/-- The course of a parse: what it sends and what it replays, and how it ends. -/
structure Course (α : Type) where
  messages : List Notice := []
  forest? : Option (List (Tree α)) := none
  driver : Driver
  outcome : Outcome

/-- The course takes the host from one world to another. -/
def Course.Takes (course : Course α) (inside : Driver) (host : Host τ α) (before after : τ) :
    Prop :=
  let heard := (hearAll (host.sink inside) (false, before) course.messages).2
  match course.forest? with
  | none => after = heard
  | some forest => ∃ valid, host.replay inside forest heard = .ok valid after

section Course

variable {rule : Rule α} {d : Driver} {source : Source} {start stop : Nat}
  {verdict : List (Tree α) → Bool}

/-- Another sink in the place of the scribe. -/
def hearing (d : Driver) (host : Host τ α) (world : τ) (caller : Bool × List Notice) : Bool × τ :=
  hearAll (host.sink d.inside) (caller.1, world) caller.2

theorem scribe_relays (verdict : List (Tree α) → Bool) (source : Source) (stop : Nat)
    {host : Host τ α}
    (calm : ∀ world notice reason, (host.sink d.inside world notice).2 ≠ .crash reason)
    (world : τ) :
    (d.subject (scribe verdict) source stop).monitor.Relays (d.hearing host world)
      (host.sink d.inside) :=
  Monitor.relays_hearing (fun _ _ => rfl) calm world

theorem run_hearing (verdict : List (Tree α) → Bool) (rule : Rule α) (source : Source)
    (start stop : Nat) {host : Host τ α}
    (calm : ∀ world notice reason, (host.sink d.inside world notice).2 ≠ .crash reason)
    (world : τ) :
    Simulates (Matching.relay (d.hearing host world))
      (rule.run (d.subject (scribe verdict) source stop) false start)
      (rule.run (d.subject host source stop) false start) :=
  Matching.attempt_simulates
    (Rule.step_simulates (scribe_relays verdict source stop calm world) rule false start) start

/-- Where the scribe's match ends without a match, every other host follows the scribe. -/
theorem announced_hearing {host : Host τ α}
    (calm : ∀ world notice reason, (host.sink d.inside world notice).2 ≠ .crash reason) (world : τ)
    (unmatched : ∀ next s, rule.run (d.subject (scribe verdict) source stop) false start
      (fresh α []) ≠ .ok (some next) s) :
    SimulatesAt (Matching.relay (d.hearing host world)) (fresh α [])
      (announced d.restatement (d.monitor (scribe verdict) source stop)
        (d.body (scribe verdict) rule source start stop))
      (announced d.restatement (d.monitor host source stop)
        (d.body host rule source start stop)) := by
  have relays := scribe_relays verdict source stop calm world
  refine announced_simulates relays ?_ d.restatement
  refine SimulatesAt.bind (run_hearing verdict rule source start stop calm world _) ?_
  intro m s run
  cases m with
  | none => exact conclude_none_simulates relays _ _ s
  | some next => exact absurd run (unmatched next s)

/-- What another sink hears of a scribe: all that it kept, unless it was detached from the start. -/
def kept (caller : Bool × List Notice) : List Notice := if caller.1 then [] else caller.2

theorem hearing_kept (host : Host τ α) (world : τ) (caller : Bool × List Notice) :
    (d.hearing host world caller).2 =
      (hearAll (host.sink d.inside) (false, world) (kept caller)).2 := by
  obtain ⟨_ | _, notices⟩ := caller
  · rfl
  · change (hearAll _ (true, world) notices).2 = world
    rw [hearAll_detached]

/-- Every host that judges as the scribe does takes this course. -/
def Course.Fits (course : Course α) (d : Driver) (rule : Rule α) (source : Source)
    (start stop : Nat) (verdict : List (Tree α) → Bool) : Prop :=
  ∀ (τ : Type) (host : Host τ α),
    (∀ world notice reason, (host.sink d.inside world notice).2 ≠ .crash reason) →
    (∀ forest world, ∃ world', host.replay d.inside forest world = .ok (verdict forest) world') →
    ∀ world, ∃ world', course.Takes d.inside host world world' ∧
      d.parse host rule source start stop world = ⟨course.driver, world', .ok course.outcome⟩

theorem course_matched (balanced : rule.Balanced) (idle : d.busy = false)
    (accepted : refuse? source.size start stop = none) {next : Nat} {s : Matching (List Notice) α}
    (run : rule.run (d.subject (scribe verdict) source stop) false start (fresh α []) =
      .ok (some next) s) :
    ∃ forest, Derives source (min stop source.size) rule start next forest ∧
      Course.Fits ⟨kept (s.diagnostics.detached, s.diagnostics.world), some forest,
        { d with pending := {}, crumbs := {}, report := s.diagnostics.report },
        .classify (verdict forest) (next == min stop source.size)⟩ d rule source start stop
        verdict := by
  obtain ⟨empty, forest, derives, -, read⟩ := root_matched balanced accepted run
  refine ⟨forest, derives, ?_⟩
  intro τ host calm judges world
  have follows := run_hearing verdict rule source start stop calm world (fresh α [])
  rw [run] at follows
  obtain ⟨world', replayed⟩ := judges forest (d.hearing host world
    (s.diagnostics.detached, s.diagnostics.world)).2
  refine ⟨world', ⟨verdict forest, by rw [← replayed, hearing_kept]⟩, ?_⟩
  exact parse_matched idle accepted follows empty read replayed

theorem course_unmatched (balanced : rule.Balanced) (idle : d.busy = false)
    (accepted : refuse? source.size start stop = none)
    (unmatched : ∀ next s, rule.run (d.subject (scribe verdict) source stop) false start
      (fresh α []) ≠ .ok (some next) s) :
    ∃ messages driver outcome,
      Course.Fits ⟨messages, none, driver, outcome⟩ d rule source start stop verdict := by
  have calm : (scribe (α := α) verdict).Calm :=
    ⟨fun _ _ _ _ => nofun, fun _ forest _ => ⟨verdict forest, _, rfl⟩⟩
  obtain ⟨outcome, answered⟩ := d.parse_faultless balanced calm source start stop []
  rw [parse_eq idle accepted] at answered
  rcases result : announced d.restatement (d.monitor (scribe verdict) source stop)
    (d.body (scribe verdict) rule source start stop) (fresh α []) with
    ⟨outcome, s⟩ | ⟨errors | fault, s⟩ <;> rw [result] at answered
  · refine ⟨kept (s.diagnostics.detached, s.diagnostics.world),
      { d with pending := {}, crumbs := {}, report := s.diagnostics.report }, outcome, ?_⟩
    intro τ host calm _ world
    have follows := announced_hearing calm world unmatched
    rw [SimulatesAt, result] at follows
    refine ⟨_, rfl, ?_⟩
    rw [parse_eq idle accepted, ← hearing_kept]
    exact congrArg d.close follows
  · refine ⟨kept (s.diagnostics.detached, s.diagnostics.world),
      { d with pending := {}, crumbs := {} }, .aborted, ?_⟩
    intro τ host calm _ world
    have follows := announced_hearing calm world unmatched
    rw [SimulatesAt, result] at follows
    refine ⟨_, rfl, ?_⟩
    rw [parse_eq idle accepted, ← hearing_kept]
    exact congrArg d.close follows
  · cases answered

/-- A parse with a balanced rule takes one course with all hosts that judge journals alike. -/
theorem parse_fits (balanced : rule.Balanced) (d : Driver) (source : Source) (start stop : Nat)
    (verdict : List (Tree α) → Bool) :
    ∃ course : Course α, course.Fits d rule source start stop verdict ∧
      ∀ forest, course.forest? = some forest →
        ∃ next, Derives source (min stop source.size) rule start next forest := by
  by_cases busy : d.busy = true
  · refine ⟨{ driver := d, outcome := .parsingNow }, ?_, nofun⟩
    exact fun _ _ _ _ world => ⟨world, rfl, parse_busy busy ..⟩
  have idle : d.busy = false := by simpa using busy
  cases refused : refuse? source.size start stop with
  | some outcome =>
    refine ⟨{ driver := d, outcome }, ?_, nofun⟩
    exact fun _ _ _ _ world => ⟨world, rfl, parse_refused idle refused ..⟩
  | none =>
    by_cases matched : ∃ next s, rule.run (d.subject (scribe verdict) source stop) false start
      (fresh α []) = .ok (some next) s
    · obtain ⟨next, s, run⟩ := matched
      obtain ⟨forest, derives, fits⟩ := course_matched balanced idle refused run
      refine ⟨_, fits, ?_⟩
      rintro _ ⟨⟩
      exact ⟨next, derives⟩
    · obtain ⟨messages, driver, outcome, fits⟩ := course_unmatched balanced idle refused
        fun next s run => matched ⟨next, s, run⟩
      exact ⟨_, fits, nofun⟩

end Course

end Driver
end Backtrack
