import Backtrack.Proofs.Callers
import Backtrack.Proofs.Parsing

/-! Requests in a row. Whatever was requested of a parser before, and however that ended, the parser
is at rest afterwards and serves the next request as a new parser does. Two things are kept: the
budget or the policy in force, which is the point of setting it, and the report and the validity of
the last parse, which the caller reads and matching does not. -/
namespace Backtrack

universe u

variable {σ α : Type}

namespace Driver

/-- No parse runs and nothing is on the stacks, under this budget and restatement. -/
structure Rests (budget : Nat) (restatement : Option String) (d : Driver) : Prop where
  quiet : d.busy = false
  pending : d.pending = {}
  crumbs : d.crumbs = {}
  budget : d.budget = budget
  restatement : d.restatement = restatement

/-- Two drivers that a caller's function cannot tell apart while they parse. -/
structure Alike (d e : Driver) : Prop where
  busy : d.busy = true ∧ e.busy = true
  budget : d.budget = e.budget
  restatement : d.restatement = e.restatement

/-- A driver that parses shows neither its stacks nor its last report, and takes no request. -/
theorem Alike.shows {d e : Driver} (alike : d.Alike e) (host : Host σ α) (rule : Rule α)
    (source : Source) (start stop : Nat) (world : σ) :
    d.pendingDepth = e.pendingDepth ∧ d.crumbDepth = e.crumbDepth ∧ d.lastReport = e.lastReport ∧
    (d.parse host rule source start stop world).outcome =
      (e.parse host rule source start stop world).outcome ∧
    (d.parse host rule source start stop world).world =
      (e.parse host rule source start stop world).world := by
  obtain ⟨here, there⟩ := alike.busy
  simp [pendingDepth, crumbDepth, lastReport, here, there, parse_busy]

variable {d e : Driver} {budget : Nat} {restatement : Option String}

theorem Rests.alike (here : d.Rests budget restatement) (there : e.Rests budget restatement) :
    d.inside.Alike e.inside where
  busy := ⟨rfl, rfl⟩
  budget := here.budget.trans there.budget.symm
  restatement := here.restatement.trans there.restatement.symm

theorem Rests.shows_empty (rests : d.Rests budget restatement) :
    d.busy = false ∧ d.pendingDepth = 0 ∧ d.crumbDepth = 0 := by
  refine ⟨rests.quiet, ?_, ?_⟩
  · simp only [pendingDepth, rests.quiet, rests.pending]
    rfl
  · simp only [crumbDepth, rests.quiet, rests.crumbs]
    rfl

theorem Rests.withBudget (rests : d.Rests budget restatement) (other : Nat) :
    (d.withBudget other).Rests (max other leastBudget) restatement :=
  ⟨rests.quiet, rests.pending, rests.crumbs, rfl, rests.restatement⟩

/-- However a parse ends, the driver is at rest afterwards. -/
theorem Rests.parse (rests : d.Rests budget restatement) (host : Host σ α) (rule : Rule α)
    (source : Source) (start stop : Nat) (world : σ) :
    (d.parse host rule source start stop world).driver.Rests budget restatement := by
  cases refused : refuse? source.size start stop with
  | some outcome => rwa [parse_refused rests.quiet refused]
  | none =>
    rw [parse_eq rests.quiet refused]
    rcases announced d.restatement (d.monitor host source stop)
      (d.body host rule source start stop) (fresh α world) with
      ⟨outcome, s⟩ | ⟨errors | fault, s⟩ <;>
      exact ⟨rests.quiet, rfl, rfl, rests.budget, rests.restatement⟩

/-- The answer of a parse rests on the settings and on what the caller's functions do. -/
theorem Rests.parse_eq_parse (here : d.Rests budget restatement) (there : e.Rests budget restatement)
    {host host' : Host σ α} (sink : host.sink d.inside = host'.sink e.inside)
    (replay : host.replay d.inside = host'.replay e.inside) (rule : Rule α) (source : Source)
    (start stop : Nat) (world : σ) :
    (d.parse host rule source start stop world).outcome =
        (e.parse host' rule source start stop world).outcome ∧
      (d.parse host rule source start stop world).world =
        (e.parse host' rule source start stop world).world := by
  cases refused : refuse? source.size start stop with
  | some outcome =>
    rw [parse_refused here.quiet refused, parse_refused there.quiet refused]
    exact ⟨rfl, rfl⟩
  | none =>
    have monitors : d.monitor host source stop = e.monitor host' source stop := by
      simp only [monitor, sink, here.budget, there.budget]
    have bodies : d.body host rule source start stop = e.body host' rule source start stop := by
      simp only [body, subject, monitors, replay]
    rw [parse_eq here.quiet refused, parse_eq there.quiet refused, here.restatement,
      there.restatement, monitors, bodies]
    rcases announced restatement (e.monitor host' source stop)
      (e.body host' rule source start stop) (fresh α world) with
      ⟨outcome, s⟩ | ⟨errors | fault, s⟩ <;> exact ⟨rfl, rfl⟩

end Driver

/-- How a request was served. -/
structure Served (P σ : Type) where
  parser : P
  world : σ
  outcome : Except Fault Outcome

/-- A kind of parser that serves requests `R`, each of which may change the setting in force. -/
structure Service (σ S P : Type) (R : Type u) where
  /-- A parser that has served no request. -/
  anew : S → P
  adjust : S → R → S
  serve : P → σ → R → Served P σ
  /-- The functions of the request see the parser from outside. -/
  Outside : R → Prop
  driver : P → Driver

namespace Service

variable {S P : Type} {R : Type u} (service : Service σ S P R)

/-- The parser and the caller's state after some requests. -/
def after (past : List R) (parser : P) (world : σ) : P × σ :=
  past.foldl (fun (parser, world) request =>
    let served := service.serve parser world request
    (served.parser, served.world)) (parser, world)

def inForce (setting : S) (past : List R) : S := past.foldl service.adjust setting

/-- After any requests the parser is at rest, and the next request is served as a new parser under
the setting in force serves it. -/
def Forgets : Prop :=
  ∀ (setting : S) (past : List R) (world : σ),
    let (parser, world) := service.after past (service.anew setting) world
    let driver := service.driver parser
    (driver.busy = false ∧ driver.pendingDepth = 0 ∧ driver.crumbDepth = 0) ∧
    ∀ next, service.Outside next →
      let here := service.serve parser world next
      let anew := service.serve (service.anew (service.inForce setting past)) world next
      here.outcome = anew.outcome ∧ here.world = anew.world

/-- What a new parser has, and serving a request keeps, under the setting in force. -/
structure Keeps (Kept : S → P → Prop) : Prop where
  anew : ∀ setting, Kept setting (service.anew setting)
  serve : ∀ setting parser world request, Kept setting parser →
    Kept (service.adjust setting request) (service.serve parser world request).parser
  rests : ∀ setting parser, Kept setting parser →
    ∃ budget restatement, (service.driver parser).Rests budget restatement
  alike : ∀ setting here there world request, Kept setting here → Kept setting there →
    service.Outside request →
    (service.serve here world request).outcome = (service.serve there world request).outcome ∧
      (service.serve here world request).world = (service.serve there world request).world

variable {service} {Kept : S → P → Prop}

theorem Keeps.after (keeps : service.Keeps Kept) {setting : S} {parser : P}
    (kept : Kept setting parser) (past : List R) (world : σ) :
    Kept (service.inForce setting past) (service.after past parser world).1 := by
  induction past generalizing setting parser world with
  | nil => exact kept
  | cons request past ih => exact ih (keeps.serve setting parser world request kept) _

theorem Keeps.forgets (keeps : service.Keeps Kept) : service.Forgets := by
  intro setting past world
  have kept := keeps.after (keeps.anew setting) past world
  obtain ⟨budget, restatement, rests⟩ := keeps.rests _ _ kept
  refine ⟨rests.shows_empty, fun next outside => ?_⟩
  exact keeps.alike _ _ _ _ next kept (keeps.anew _) outside

end Service

namespace Driver

/-- The budget after some changes. -/
def budgetInForce (budget : Nat) (changes : List Nat) : Nat :=
  changes.foldl (fun _ change => max change leastBudget) budget

theorem Rests.withBudgets {d : Driver} {budget : Nat} {restatement : Option String}
    (rests : d.Rests budget restatement) (changes : List Nat) :
    (changes.foldl Driver.withBudget d).Rests (budgetInForce budget changes) restatement := by
  induction changes generalizing d budget with
  | nil => exact rests
  | cons change changes ih => exact ih (rests.withBudget change)

/-- Changes of the budget, and a parse. -/
structure Request (σ : Type) where
  {α : Type}
  budgets : List Nat := []
  host : Host σ α
  rule : Rule α
  source : Source
  start : Nat
  stop : Nat

def service (σ : Type) (restatement : Option String) : Service σ Nat Driver (Request σ) where
  anew budget := { budget, restatement }
  adjust budget request := budgetInForce budget request.budgets
  serve d world request :=
    let parsed := (request.budgets.foldl withBudget d).parse request.host request.rule
      request.source request.start request.stop world
    ⟨parsed.driver, parsed.world, parsed.outcome⟩
  Outside request := ∀ d e : Driver, d.Alike e →
    request.host.sink d = request.host.sink e ∧ request.host.replay d = request.host.replay e
  driver d := d

theorem service_keeps (restatement : Option String) :
    (service σ restatement).Keeps fun budget d => d.Rests budget restatement where
  anew _ := ⟨rfl, rfl, rfl, rfl, rfl⟩
  serve _ _ _ request rests := (rests.withBudgets request.budgets).parse ..
  rests budget _ rests := ⟨budget, restatement, rests⟩
  alike budget d e world request here there outside := by
    have here := here.withBudgets request.budgets
    have there := there.withBudgets request.budgets
    obtain ⟨sink, replay⟩ := outside _ _ (here.alike there)
    exact here.parse_eq_parse there sink replay ..

end Driver

namespace Xml

/-- Changes of the budget, and a parse of one construct. -/
structure Request (σ : Type) where
  budgets : List Nat := []
  construct : Construct
  source : Source
  client : Client σ

/-- The functions of the client see the driver, and not what was valid before. -/
def Client.Outside (client : Client σ) : Prop :=
  ∀ p q : Parser, p.driver.Alike q.driver →
    client.receiver p = client.receiver q ∧ client.sink p = client.sink q

namespace Parser

def service (σ : Type) : Service σ Nat Parser (Request σ) where
  anew budget := { driver := { budget } }
  adjust budget request := Driver.budgetInForce budget request.budgets
  serve p world request :=
    let parsed := (request.budgets.foldl withBudget p).parse request.construct request.source
      request.client world
    ⟨parsed.parser, parsed.world, parsed.outcome⟩
  Outside request := request.client.Outside
  driver p := p.driver

theorem withBudgets_driver (p : Parser) (changes : List Nat) :
    (changes.foldl withBudget p).driver = changes.foldl Driver.withBudget p.driver := by
  induction changes generalizing p with
  | nil => rfl
  | cons change changes ih => exact ih _

theorem parse_eq_parse {p q : Parser} {budget : Nat} {restatement : Option String}
    (here : p.driver.Rests budget restatement) (there : q.driver.Rests budget restatement)
    {client : Client σ} (outside : client.Outside) (construct : Construct) (source : Source)
    (world : σ) :
    (p.parse construct source client world).outcome =
        (q.parse construct source client world).outcome ∧
      (p.parse construct source client world).world =
        (q.parse construct source client world).world := by
  obtain ⟨-, pWorld, pOutcome⟩ := p.parse_host construct source client world
  obtain ⟨-, qWorld, qOutcome⟩ := q.parse_host construct source client world
  obtain ⟨receiver, sink⟩ := outside { p with driver := p.driver.inside }
    { q with driver := q.driver.inside } (here.alike there)
  rw [pWorld, pOutcome, qWorld, qOutcome]
  exact here.parse_eq_parse there sink (by simp only [Client.host, receiver]) ..

theorem service_keeps :
    (service σ).Keeps fun budget p => p.driver.Rests budget none where
  anew _ := ⟨rfl, rfl, rfl, rfl, rfl⟩
  serve budget p world request rests := by
    let changed := request.budgets.foldl withBudget p
    obtain ⟨driver, -, -⟩ := changed.parse_host request.construct request.source request.client world
    change (changed.parse _ _ _ _).parser.driver.Rests _ _
    rw [driver, withBudgets_driver]
    exact (rests.withBudgets request.budgets).parse ..
  rests budget _ rests := ⟨budget, none, rests⟩
  alike budget p q world request here there outside := by
    have here := here.withBudgets request.budgets
    have there := there.withBudgets request.budgets
    rw [← withBudgets_driver] at here there
    exact parse_eq_parse here there outside ..

end Parser
end Xml

namespace Config

/-- Changes of the policy, and a parse. -/
structure Request (σ : Type) where
  policies : List Policy := []
  source : Source
  start : Nat
  stop : Nat
  client : Client σ

/-- The functions of the client see the policy and the driver, and not what was valid before. -/
def Client.Outside (client : Client σ) : Prop :=
  ∀ p q : Parser, p.policy = q.policy → p.driver.Alike q.driver →
    client.receiver p = client.receiver q ∧ client.sink p = client.sink q

/-- The policy after a change, which is turned down when it is not in order. -/
def Policy.changed (policy change : Policy) : Policy :=
  match change.validate with
  | .ok _ => change
  | .error _ => policy

namespace Parser

/-- A parser for the policy, at rest. -/
structure Serves (policy : Policy) (p : Parser) : Prop where
  rests : p.driver.Rests (max policy.budget leastBudget) (some abortRestatement)
  policy : p.policy = policy

theorem build_serves (policy : Policy) : (build policy).Serves policy :=
  ⟨⟨rfl, rfl, rfl, rfl, rfl⟩, rfl⟩

theorem setPolicy_rejected (p : Parser) {policy : Policy} {error : PolicyError}
    (rejected : policy.validate = .error error) : p.setPolicy policy = (p, .error error) := by
  simp only [setPolicy, ofPolicy, rejected]
  rfl

theorem Serves.setPolicy {p : Parser} {policy : Policy} (serves : p.Serves policy)
    (change : Policy) : (p.setPolicy change).1.Serves (policy.changed change) := by
  unfold Policy.changed
  cases judged : change.validate with
  | error error =>
    rw [p.setPolicy_rejected judged]
    exact serves
  | ok =>
    simp only [Parser.setPolicy, ofPolicy, judged]
    exact build_serves change

def setPolicies (p : Parser) (changes : List Policy) : Parser :=
  changes.foldl (fun p change => (p.setPolicy change).1) p

theorem Serves.setPolicies {p : Parser} {policy : Policy} (serves : p.Serves policy)
    (changes : List Policy) :
    (p.setPolicies changes).Serves (changes.foldl Policy.changed policy) := by
  induction changes generalizing p policy with
  | nil => exact serves
  | cons change changes ih => exact ih (serves.setPolicy change)

def service (σ : Type) : Service σ Policy Parser (Request σ) where
  anew policy := build policy
  adjust policy request := request.policies.foldl Policy.changed policy
  serve p world request :=
    let parsed := (p.setPolicies request.policies).parseRange request.source request.start
      request.stop request.client world
    ⟨parsed.parser, parsed.world, parsed.outcome⟩
  Outside request := request.client.Outside
  driver p := p.driver

theorem parse_eq_parse {p q : Parser} {policy : Policy} (here : p.Serves policy)
    (there : q.Serves policy) {client : Client σ} (outside : client.Outside) (source : Source)
    (start stop : Nat) (world : σ) :
    (p.parseRange source start stop client world).outcome =
        (q.parseRange source start stop client world).outcome ∧
      (p.parseRange source start stop client world).world =
        (q.parseRange source start stop client world).world := by
  obtain ⟨-, pWorld, pOutcome⟩ := p.parse_host source start stop client world
  obtain ⟨-, qWorld, qOutcome⟩ := q.parse_host source start stop client world
  rw [pWorld, pOutcome, qWorld, qOutcome]
  obtain ⟨chosen, d, valid⟩ := p
  obtain ⟨chosen', e, valid'⟩ := q
  obtain rfl : chosen = chosen' := here.policy.trans there.policy.symm
  have shown (valid valid' : Bool) := outside ⟨chosen, d.inside, valid⟩
    ⟨chosen, e.inside, valid'⟩ rfl (here.rests.alike there.rests)
  refine here.rests.parse_eq_parse there.rests (shown valid valid').2 ?_ ..
  have receiver := (shown valid valid').1
  have closing (valid : Bool) := (shown valid valid).1
  funext forest
  simp only [Client.host, receiver, closing]

theorem service_keeps : (service σ).Keeps Serves where
  anew := build_serves
  serve policy p world request serves := by
    have changed := serves.setPolicies request.policies
    obtain ⟨driver, -, -⟩ := (p.setPolicies request.policies).parse_host request.source
      request.start request.stop request.client world
    exact ⟨driver ▸ changed.rests.parse .., changed.policy⟩
  rests policy _ serves := ⟨_, _, serves.rests⟩
  alike policy p q world request here there outside :=
    parse_eq_parse (here.setPolicies request.policies) (there.setPolicies request.policies)
      outside ..

end Parser
end Config

/-- A driver, a parser of XML constructs and a parser of config files serve each request as new ones
do, whatever they were asked before: with rules that take from empty stacks, by callers that give
up, under budgets that run out. A policy that is turned down changes nothing. -/
theorem requests_independent (σ : Type) (restatement : Option String) :
    (Driver.service σ restatement).Forgets ∧ (Xml.Parser.service σ).Forgets ∧
    (Config.Parser.service σ).Forgets ∧
    ∀ (p : Config.Parser) (policy : Config.Policy) (error : Config.PolicyError),
      policy.validate = .error error → p.setPolicy policy = (p, .error error) :=
  ⟨(Driver.service_keeps restatement).forgets, Xml.Parser.service_keeps.forgets,
    Config.Parser.service_keeps.forgets, fun p _ _ => p.setPolicy_rejected⟩

/-- A rule that takes from the empty stack, a sink that gives up, and then a sink that requests a
parse for each message. -/
theorem requests_independent_faults :
    let service := Driver.service (List String) (some "Stopped.")
    let nested (d : Driver) : Except Fault Outcome :=
      (d.parse Host.deaf (Rule.empty : Rule Unit) #[0x61] 0 1 ()).outcome
    let answer (d : Driver) : String :=
      match nested d with
      | .ok outcome => outcome.name
      | .error fault => fault.message
    let asking : Host (List String) Unit :=
      ⟨fun d world notice => (world ++ [notice.text, answer d], .keep), fun _ _ => pure true⟩
    let failing : Host (List String) Unit :=
      ⟨fun _ world _ => (world, .crash "gave up"), fun _ _ => pure true⟩
    let taking : Driver.Request (List String) :=
      ⟨[], asking, Rule.empty.prepare (.minor "early"), #[0x61], 0, 1⟩
    let refusing : Driver.Request (List String) := ⟨[2], failing, .nothing, #[0x61], 0, 1⟩
    let next : Driver.Request (List String) :=
      ⟨[], asking, (Rule.literal [0x61]).sendNow (.minor "alarm") ++ .nothing, #[0x61], 0, 1⟩
    let (d, world) := service.after [taking, refusing] (service.anew 100) []
    (service.serve (service.anew 100) [] taking).outcome = .error (.nothingToPrepare "early") ∧
    (service.serve (service.anew 100) [] refusing).outcome = .error (.callback "gave up") ∧
    service.Outside next ∧ d.budget = 4 ∧
    (service.serve d world next).outcome = .ok .notParsed ∧
    (service.serve d world next).world =
      ["alarm", "ParsingNow", "Unable to finish parsing data.", "ParsingNow"] := by
  intro service nested answer asking failing taking refusing next
  have outside : service.Outside next := by
    intro d e alike
    refine ⟨?_, rfl⟩
    have same : nested d = nested e := (alike.shows _ _ _ _ _ _).2.2.2.1
    funext world notice
    simp only [next, asking, answer, same]
  obtain ⟨-, served⟩ :=
    (requests_independent (List String) (some "Stopped.")).1 100 [taking, refusing] []
  obtain ⟨outcome, world⟩ := served next outside
  exact ⟨rfl, rfl, outside, rfl, outcome.trans rfl, world.trans rfl⟩

end Backtrack
