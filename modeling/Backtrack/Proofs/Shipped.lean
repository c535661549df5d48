import Backtrack.Config.Grammar
import Backtrack.Proofs.Balance
import Backtrack.Proofs.Derivation
import Backtrack.Proofs.Parsing
import Backtrack.Xml.Construct

/-! The grammars that come with the engine are balanced, so a parse with one of them faults only
where the caller's functions do: it never takes from an empty stack, and no message waits on the
stack once the root rule has matched. -/
namespace Backtrack

variable {σ α : Type}

/-- The root rules of the XML constructs, the bare name, and the config grammar of any policy. -/
inductive Shipped : {α : Type} → Rule α → Prop where
  | construct (c : Xml.Construct) : Shipped c.rule
  | nameToken : Shipped Xml.Name.token
  | config (p : Config.Policy) : Shipped (Config.Grammar.root p)

theorem Shipped.balanced {rule : Rule α} (shipped : Shipped rule) : rule.Balanced := by
  intro stack
  cases shipped with
  | construct c => cases c <;> cases stack <;> rfl
  | nameToken => cases stack <;> rfl
  | config p =>
    -- The switches of a policy choose between rules, its delimiters only fill them in.
    obtain ⟨_, _, _, _, _, _, _, alnumNames, quotedValues, _⟩ := p
    cases stack <;> cases alnumNames <;> cases quotedValues <;> rfl

/-- The caller's functions never give up. -/
structure Host.Calm (host : Host σ α) : Prop where
  sink : ∀ driver world notice reason, (host.sink driver world notice).2 ≠ .crash reason
  replay : ∀ driver forest world, ∃ valid world', host.replay driver forest world = .ok valid world'

namespace Driver

theorem replay_faultless {host : EStateM Fault σ Bool} {s : Matching σ α}
    (replays : ∃ valid world, host s.diagnostics.world = .ok valid world) :
    Faultless (replay host s) := by
  obtain ⟨valid, world, read⟩ := replays
  simp only [replay, read]
  trivial

/-- What follows a match is without faults when no message waits and the journal can be read. -/
theorem conclude_faultless {subject : Subject σ} {host : List (Tree α) → EStateM Fault σ Bool}
    (calm : subject.monitor.Calm)
    (replays : ∀ forest world, ∃ valid world', host forest world = .ok valid world')
    (m : Option Nat) (s : Matching σ α)
    (matched : m ≠ none → s.diagnostics.pending.depth = 0 ∧
      ∃ forest, Journal.forest subject.source s.events.toList = .ok forest) :
    Faultless (conclude subject host m s) := by
  cases m with
  | none =>
    refine Faultless.bind ?_ fun _ _ _ => Faultless.bind ?_ fun _ _ _ => trivial
    · exact Faultless.on_diagnostics (Diagnostics.flushAbandoned_faultless calm _)
    · exact Faultless.on_diagnostics (Diagnostics.send_faultless calm _ _)
  | some next =>
    obtain ⟨empty, forest, read⟩ := matched nofun
    rw [conclude_read empty read]
    exact (replay_faultless (replays ..)).bind fun _ _ _ => trivial

theorem monitor_calm {host : Host σ α} (calm : host.Calm) (d : Driver) (source : Source)
    (stop : Nat) : (d.monitor host source stop).Calm :=
  calm.sink d.inside

/-- Where a balanced root rule matches, no message waits, and the journal holds its derivation. -/
theorem root_matched {rule : Rule α} (balanced : rule.Balanced) {d : Driver} {host : Host σ α}
    {source : Source} {start stop next : Nat} (accepted : refuse? source.size start stop = none)
    {world : σ} {s : Matching σ α} (run : rule.run (d.subject host source stop) false start
      (fresh α world) = .ok (some next) s) :
    s.diagnostics.pending.depth = 0 ∧
    ∃ forest, Derives source (min stop source.size) rule start next forest ∧
      s.events.toList = Tree.eventsOf forest ∧
      Journal.forest source s.events.toList = .ok forest := by
  have bounded := d.subject_bounded host source stop
  have inside := start_inside accepted d host
  obtain ⟨t, evaluation⟩ := rule.evaluates bounded false start (fresh α world) inside
  rw [run] at evaluation
  obtain ⟨forest, derives, appended⟩ := evaluation.journaled bounded inside
  have within : start ≤ (d.subject host source stop).input.length := bounded.length_input ▸ inside
  refine ⟨balanced.level evaluation, forest, derives, appended, ?_⟩
  rw [appended]
  exact (derives.nests within).forest_events

/-- What follows the match of a balanced root rule, when the replay answers. -/
theorem conclude_matched {subject : Subject σ} {host : List (Tree α) → EStateM Fault σ Bool}
    {s : Matching σ α} {next : Nat} {forest : List (Tree α)} {valid : Bool} {world : σ}
    (empty : s.diagnostics.pending.depth = 0)
    (read : Journal.forest subject.source s.events.toList = .ok forest)
    (replayed : host forest s.diagnostics.world = .ok valid world) :
    conclude subject host (some next) s = .ok (.classify valid (next == subject.stop))
      { s with diagnostics :=
        { s.diagnostics with pending := {}, crumbs := {}, world := world } } := by
  rw [conclude_read empty read]
  simp only [bind_apply, replay, Matching.drained, replayed]
  rfl

/-- What follows a match when the replay gives up. -/
theorem conclude_faulted {subject : Subject σ} {host : List (Tree α) → EStateM Fault σ Bool}
    {s : Matching σ α} {next : Nat} {forest : List (Tree α)} {fault : Fault} {world : σ}
    (empty : s.diagnostics.pending.depth = 0)
    (read : Journal.forest subject.source s.events.toList = .ok forest)
    (replayed : host forest s.diagnostics.world = .error fault world) :
    conclude subject host (some next) s = .error (.fault fault)
      { s with diagnostics :=
        { s.diagnostics with pending := {}, crumbs := {}, world := world } } := by
  rw [conclude_read empty read]
  simp only [bind_apply, replay, Matching.drained, replayed]

theorem body_eq_conclude {rule : Rule α} {d : Driver} {host : Host σ α} {source : Source}
    {start stop : Nat} {s s' : Matching σ α} {m : Option Nat}
    (run : rule.run (d.subject host source stop) false start s = .ok m s') :
    d.body host rule source start stop s =
      conclude (d.subject host source stop) (host.replay d.inside) m s' := by
  rw [body, bind_apply, run]

/-- A parse whose root rule matches answers by the verdict of the replay. -/
theorem parse_matched {rule : Rule α} {d : Driver} {host : Host σ α} {source : Source}
    {start stop next : Nat} (idle : d.busy = false)
    (accepted : refuse? source.size start stop = none) {world world' : σ} {s : Matching σ α}
    (run : rule.run (d.subject host source stop) false start (fresh α world) = .ok (some next) s)
    (empty : s.diagnostics.pending.depth = 0) {forest : List (Tree α)}
    (read : Journal.forest source s.events.toList = .ok forest) {valid : Bool}
    (replayed : host.replay d.inside forest s.diagnostics.world = .ok valid world') :
    d.parse host rule source start stop world =
      ⟨{ d with pending := {}, crumbs := {}, report := s.diagnostics.report }, world',
        .ok (.classify valid (next == min stop source.size))⟩ := by
  rw [parse_eq idle accepted, announced, body_eq_conclude run,
    conclude_matched empty read replayed]
  rfl

/-- A parse whose replay gives up has the fault of the replay. -/
theorem parse_faulted {rule : Rule α} {d : Driver} {host : Host σ α} {source : Source}
    {start stop next : Nat} (idle : d.busy = false)
    (accepted : refuse? source.size start stop = none) {world world' : σ} {s : Matching σ α}
    (run : rule.run (d.subject host source stop) false start (fresh α world) = .ok (some next) s)
    (empty : s.diagnostics.pending.depth = 0) {forest : List (Tree α)}
    (read : Journal.forest source s.events.toList = .ok forest) {fault : Fault}
    (replayed : host.replay d.inside forest s.diagnostics.world = .error fault world') :
    d.parse host rule source start stop world =
      ⟨{ d with pending := {}, crumbs := {} }, world', .error fault⟩ := by
  rw [parse_eq idle accepted, announced, body_eq_conclude run,
    conclude_faulted empty read replayed]
  rfl

/-- A parse with a balanced rule faults only where the caller's functions do. -/
theorem parse_faultless {rule : Rule α} (balanced : rule.Balanced) (d : Driver) {host : Host σ α}
    (calm : host.Calm) (source : Source) (start stop : Nat) (world : σ) :
    ∃ outcome, (d.parse host rule source start stop world).outcome = .ok outcome := by
  by_cases busy : d.busy = true
  · exact ⟨.parsingNow, by rw [parse_busy busy]⟩
  have idle : d.busy = false := by simpa using busy
  cases refused : refuse? source.size start stop with
  | some outcome => exact ⟨outcome, by rw [parse_refused idle refused]⟩
  | none =>
    rw [parse_eq idle refused]
    have sink := d.monitor_calm calm source stop
    have bounded := d.subject_bounded host source stop
    have inside := start_inside refused d host
    obtain ⟨t, evaluation⟩ := rule.evaluates bounded false start (fresh α world) inside
    refine Faultless.outcome (Faultless.announced sink ?_ d.restatement) d
    refine (balanced.faultless sink bounded evaluation inside).bind ?_
    intro m s run
    refine conclude_faultless sink (calm.replay d.inside) m s ?_
    intro matched
    obtain ⟨next, rfl⟩ := Option.ne_none_iff_exists'.mp matched
    obtain ⟨empty, forest, -, -, read⟩ := root_matched balanced refused run
    exact ⟨empty, forest, read⟩

end Driver

/-- A parse with a shipped grammar never faults under a calm host. While its root rule is matched
nothing is taken from an empty stack, and where it matches no message waits. -/
theorem parse_shipped {rule : Rule α} (shipped : Shipped rule) (d : Driver) (host : Host σ α)
    (calm : host.Calm) (source : Source) (start stop : Nat) (world : σ) :
    (∃ outcome, (d.parse host rule source start stop world).outcome = .ok outcome) ∧
    ∀ monitor : Monitor σ, start ≤ min stop source.size →
      let subject := Subject.upTo source stop monitor
      let s : Matching σ α := { diagnostics := { world } }
      (∃ t, Evaluates subject .attempt rule false start s t (rule.run subject false start s)) ∧
      ∀ t r, Evaluates subject .attempt rule false start s t r →
        (∀ p ∈ t, p.effect = .cancel ∨ (∃ message, p.effect = .prepare message) →
          0 < p.state.pending.depth) ∧
        (∀ p ∈ t, p.effect = .leaveScope → 0 < p.state.crumbs.depth) ∧
        ∀ next s', r = .ok (some next) s' → s'.diagnostics.pending.depth = 0 := by
  refine ⟨d.parse_faultless shipped.balanced calm source start stop world, ?_⟩
  intro monitor inside subject s
  have bounded : subject.Bounded := Subject.upTo_bounded source stop monitor
  refine ⟨rule.evaluates bounded false start s inside, ?_⟩
  intro t r evaluation
  have supported := shipped.balanced.supported evaluation
  refine ⟨?_, ?_, ?_⟩
  · rintro p member taken
    have high := supported p member .pending
    rcases taken with taken | ⟨message, taken⟩ <;> rw [taken] at high <;> exact high
  · intro p member left
    have high := supported p member .scopes
    rw [left] at high
    exact high
  · rintro next s' rfl
    exact shipped.balanced.level evaluation

/-- An unfinished comment, which its grammar skips. -/
theorem parse_shipped_comment :
    let host : Host Unit Xml.Action := ⟨fun _ _ _ => ((), .keep), fun _ _ => pure true⟩
    let source : Source := (Text.utf8 "<!-- \x00").toArray
    Shipped Xml.Construct.comment.rule ∧ host.Calm ∧
    ∃ outcome, (({} : Driver).parse host Xml.Construct.comment.rule source 0 6 ()).outcome =
      .ok outcome := by
  intro host source
  have shipped : Shipped Xml.Construct.comment.rule := .construct .comment
  have calm : host.Calm := ⟨fun _ _ _ _ => nofun, fun _ _ _ => ⟨true, (), rfl⟩⟩
  exact ⟨shipped, calm, (parse_shipped shipped {} host calm source 0 6 ()).1⟩

end Backtrack
