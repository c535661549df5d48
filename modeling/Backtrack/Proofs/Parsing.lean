import Backtrack.Driver
import Backtrack.Proofs.Sending

/-! A parse taken apart: the monitor and the subject that the driver sets up for an accepted range,
the match of the root rule with what follows it, and how the driver reads off the result. -/
namespace Backtrack

variable {σ α : Type}

/-- Both stacks are emptied. -/
def Matching.drained (s : Matching σ α) : Matching σ α :=
  { s with diagnostics := { s.diagnostics with pending := {}, crumbs := {} } }

namespace Driver

/-- The driver as the caller's functions see it. -/
def inside (d : Driver) : Driver := { d with busy := true }

def monitor (d : Driver) (host : Host σ α) (source : Source) (stop : Nat) : Monitor σ :=
  ⟨.ofSource (source.extract 0 stop), d.budget, host.sink d.inside⟩

def subject (d : Driver) (host : Host σ α) (source : Source) (stop : Nat) : Subject σ :=
  .upTo source stop (d.monitor host source stop)

/-- A match and what follows it. -/
def body (d : Driver) (host : Host σ α) (rule : Rule α) (source : Source) (start stop : Nat) :
    MatchM σ α Outcome := do
  let subject := d.subject host source stop
  conclude subject (host.replay d.inside) (← rule.run subject false start)

/-- How the driver stands after a parse, and what it answers. -/
def close (d : Driver) : EStateM.Result Stop (Matching σ α) Outcome → Parsed σ
  | .ok outcome s =>
    ⟨{ d with pending := {}, crumbs := {}, report := s.diagnostics.report }, s.diagnostics.world,
      .ok outcome⟩
  | .error (.fault fault) s =>
    ⟨{ d with pending := {}, crumbs := {} }, s.diagnostics.world, .error fault⟩
  | .error (.aborted _) s =>
    ⟨{ d with pending := {}, crumbs := {} }, s.diagnostics.world, .ok .aborted⟩

/-- The state in which matching starts. -/
def fresh (α : Type) (world : σ) : Matching σ α := { diagnostics := { world } }

theorem parse_busy {d : Driver} (busy : d.busy = true) (host : Host σ α) (rule : Rule α)
    (source : Source) (start stop : Nat) (world : σ) :
    d.parse host rule source start stop world = ⟨d, world, .ok .parsingNow⟩ := if_pos busy

theorem parse_refused {d : Driver} {source : Source} {start stop : Nat} {outcome : Outcome}
    (idle : d.busy = false) (refused : refuse? source.size start stop = some outcome)
    (host : Host σ α) (rule : Rule α) (world : σ) :
    d.parse host rule source start stop world = ⟨d, world, .ok outcome⟩ := by
  simp [parse, idle, refused]

theorem parse_eq {d : Driver} {source : Source} {start stop : Nat} (idle : d.busy = false)
    (accepted : refuse? source.size start stop = none) (host : Host σ α) (rule : Rule α)
    (world : σ) :
    d.parse host rule source start stop world =
      d.close (announced d.restatement (d.monitor host source stop)
        (d.body host rule source start stop) (fresh α world)) := by
  unfold parse close
  rw [accepted]
  simp only [idle, Bool.false_eq_true, if_false]
  rfl

theorem refuse?_none {size start stop : Nat} (accepted : refuse? size start stop = none) :
    start < stop ∧ stop ≤ size := by
  unfold refuse? at accepted
  grind

theorem subject_bounded (d : Driver) (host : Host σ α) (source : Source) (stop : Nat) :
    (d.subject host source stop).Bounded := Subject.upTo_bounded ..

/-- A parse starts inside the range that it matches. -/
theorem start_inside {source : Source} {start stop : Nat}
    (accepted : refuse? source.size start stop = none) (d : Driver) (host : Host σ α) :
    start ≤ (d.subject host source stop).stop := by
  have range := refuse?_none accepted
  exact Nat.le_min.mpr ⟨by omega, by omega⟩

/-- What follows a match. A message that waits, or a journal that cannot be read, is a fault;
otherwise the forest is replayed once both stacks are empty. -/
theorem conclude_some (subject : Subject σ) (host : List (Tree α) → EStateM Fault σ Bool)
    (next : Nat) (s : Matching σ α) :
    conclude subject host (some next) s =
      if 0 < s.diagnostics.pending.depth then .error (.fault .pendingAfterMatch) s.drained
      else match Journal.forest subject.source s.events.toList with
        | .error fault => .error (.fault fault) s.drained
        | .ok forest =>
          (do return Outcome.classify (← replay (host forest)) (next == subject.stop)) s.drained := by
  have got (s : Matching σ α) : (get : MatchM σ α _) s = .ok s s := rfl
  by_cases waiting : 0 < s.diagnostics.pending.depth
  · simp only [conclude, bind_apply, Matching.onDiagnostics, Diagnostics.drain, if_pos waiting]
    rfl
  · simp only [conclude, bind_apply, Matching.onDiagnostics, Diagnostics.drain, if_neg waiting, got,
      Matching.drained]
    cases Journal.forest subject.source s.events.toList with
    | error fault => rfl
    | ok forest => simp only [bind_apply]

/-- What follows a match when no message waits and the journal can be read. -/
theorem conclude_read {subject : Subject σ} {host : List (Tree α) → EStateM Fault σ Bool}
    {next : Nat} {s : Matching σ α} {forest : List (Tree α)}
    (empty : s.diagnostics.pending.depth = 0)
    (read : Journal.forest subject.source s.events.toList = .ok forest) :
    conclude subject host (some next) s =
      (do return Outcome.classify (← replay (host forest)) (next == subject.stop)) s.drained := by
  rw [conclude_some, if_neg (Nat.not_lt.mpr (Nat.le_of_eq empty)), read]

end Driver

theorem Faultless.announced {body : MatchM σ α Outcome} {s : Matching σ α} {m : Monitor σ}
    (calm : m.Calm) (h : Faultless (body s)) (restatement : Option String) :
    Faultless (Driver.announced restatement m body s) := by
  unfold Driver.announced
  rcases run : body s with ⟨outcome, s'⟩ | ⟨errors | fault, s'⟩ <;> rw [run] at h
  · trivial
  · refine Faultless.bind ?_ fun _ _ _ => trivial
    exact Faultless.on_diagnostics (Diagnostics.announceAbort_faultless calm restatement _)
  · exact h

theorem Faultless.outcome {r : EStateM.Result Stop (Matching σ α) Outcome} (h : Faultless r)
    (d : Driver) : ∃ outcome, (d.close r).outcome = .ok outcome := by
  rcases r with ⟨outcome, s⟩ | ⟨errors | fault, s⟩
  · exact ⟨outcome, rfl⟩
  · exact ⟨.aborted, rfl⟩
  · cases h

end Backtrack
