import Backtrack.Matcher
import Backtrack.Outcome

/-! One parse from the request to the verdict. A driver carries its error budget and the report of
the last finished parse from one parse to the next; its stacks are empty whenever no parse runs. The
caller's functions are shown the driver as it is while the parse runs, and a parse that they request
on it is refused. A fault leaves the last report as it was. -/
namespace Backtrack

def defaultBudget : Nat := 100

/-- The smallest budget a driver takes. -/
def leastBudget : Nat := 4

structure Driver where
  budget : Nat := defaultBudget
  /-- Stands in for the last message in the closing pair of an aborted parse. -/
  restatement : Option String := none
  busy : Bool := false
  pending : Pending := {}
  crumbs : Breadcrumbs := {}
  report : Report := {}

/-- The caller's side of a parse, over the caller's state `σ`. Replay reads the committed actions
and tells whether their content is valid. -/
structure Host (σ α : Type) where
  sink : Driver → σ → Notice → σ × Reply
  replay : Driver → List (Tree α) → EStateM Fault σ Bool

structure Parsed (σ : Type) where
  driver : Driver
  world : σ
  outcome : Except Fault Outcome

namespace Driver

variable {σ α : Type}

/-- Budgets below the least one are raised to it. -/
def withBudget (d : Driver) (budget : Nat) : Driver := { d with budget := max budget leastBudget }

def pendingDepth (d : Driver) : Nat := if d.busy then 0 else d.pending.depth

def crumbDepth (d : Driver) : Nat := if d.busy then 0 else d.crumbs.depth

def lastReport (d : Driver) : Report := if d.busy then {} else d.report

def refuse? (size start stop : Nat) : Option Outcome :=
  if size < start then some .noStart
  else if size < stop then some .noEnd
  else if stop < start then some .endTooLow
  else if stop = start then some .emptyData
  else none

/-- Replays the journal of a match, with the caller's state taken out of the diagnostics. -/
def replay (host : EStateM Fault σ Bool) : MatchM σ α Bool := fun s =>
  match host s.diagnostics.world with
  | .ok valid world => .ok valid { s with diagnostics.world := world }
  | .error fault world => .error (.fault fault) { s with diagnostics.world := world }

/-- What follows the match of the root rule. -/
def conclude (subject : Subject σ) (host : List (Tree α) → EStateM Fault σ Bool) :
    Option Nat → MatchM σ α Outcome
  | none => do
    Matching.onDiagnostics (Diagnostics.flushAbandoned subject.monitor)
    Matching.onDiagnostics
      (Diagnostics.send subject.monitor ⟨.fatal "Unable to finish parsing data.", 0⟩)
    return .notParsed
  | some next => do
    let pending ← Matching.onDiagnostics Diagnostics.drain
    if 0 < pending then throw (.fault .pendingAfterMatch)
    match Journal.forest subject.source (← get).events.toList with
    | .error fault => throw (.fault fault)
    | .ok forest => return .classify (← replay (host forest)) (next == subject.stop)

/-- Closes a parse whose budget is used up. -/
def announced (restatement : Option String) (monitor : Monitor σ) (body : MatchM σ α Outcome) :
    MatchM σ α Outcome := fun s =>
  match body s with
  | .error (.aborted _) s =>
    (do
      Matching.onDiagnostics (Diagnostics.announceAbort monitor restatement)
      return Outcome.aborted) s
  | result => result

/-- Matches `rule` over `source[start..stop]` and replays the result. -/
def parse (d : Driver) (host : Host σ α) (rule : Rule α) (source : Source) (start stop : Nat)
    (world : σ) : Parsed σ :=
  if d.busy then ⟨d, world, .ok .parsingNow⟩
  else match refuse? source.size start stop with
  | some refused => ⟨d, world, .ok refused⟩
  | none =>
    let inside := { d with busy := true }
    let monitor := ⟨.ofSource (source.extract 0 stop), d.budget, host.sink inside⟩
    let subject := Subject.upTo source stop monitor
    let body := do conclude subject (host.replay inside) (← rule.run subject false start)
    let idle := { d with pending := {}, crumbs := {} }
    match announced d.restatement monitor body { diagnostics := { world } } with
    | .ok outcome s =>
      ⟨{ idle with report := s.diagnostics.report }, s.diagnostics.world, .ok outcome⟩
    | .error (.fault fault) s => ⟨idle, s.diagnostics.world, .error fault⟩
    | .error (.aborted _) s => ⟨idle, s.diagnostics.world, .ok .aborted⟩

end Driver
end Backtrack
