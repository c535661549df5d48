import Backtrack.Proofs.History
import Backtrack.Proofs.Unswayed

/-! Parses that a caller's function interrupts. The driver takes its report over when a parse has
ended, so an interrupted parse leaves the report of the parse before it, with an idle driver, the
budget and the policy. The validity of a config file is noted behind the calls for its content and
before the closing call: an interruption at a message or at a call for content leaves the validity as
it was, and one at the closing call comes too late for that. -/
namespace Backtrack

variable {π κ σ α : Type}

theorem exists_error_of_toOption {ε β : Type} {x : Except ε β} (none : x.toOption = none) :
    ∃ e, x = .error e := by
  cases x with
  | error e => exact ⟨e, rfl⟩
  | ok => cases none

namespace Driver

/-- An interrupted parse has cleared the stacks of the driver and changed nothing else. -/
theorem parse_interrupted_driver {d : Driver} (idle : d.busy = false) {host : Host σ α}
    {rule : Rule α} {source : Source} {start stop : Nat} {world : σ} {fault : Fault}
    (interrupted : (d.parse host rule source start stop world).outcome = .error fault) :
    (d.parse host rule source start stop world).driver = { d with pending := {}, crumbs := {} } := by
  cases refused : refuse? source.size start stop with
  | some outcome =>
    rw [parse_refused idle refused] at interrupted
    cases interrupted
  | none =>
    rw [parse_eq idle refused] at interrupted ⊢
    generalize announced d.restatement (d.monitor host source stop)
      (d.body host rule source start stop) (fresh α world) = ended at interrupted ⊢
    rcases ended with ⟨outcome, s⟩ | ⟨errors | fault, s⟩
    · cases interrupted
    · cases interrupted
    · rfl

end Driver

/-- However a row of calls ends, the receiver has been given calls of the row. -/
theorem calls_given (receiver : π → Receiver σ κ) (shown : π) {P : κ → Prop} (calls : List κ)
    (all : ∀ call ∈ calls, P call) (d : Delivery) (log : Log π κ σ)
    (before : ∀ e ∈ log.calls, P e.given) :
    match Delivery.calls (Log.receiver receiver shown) d calls log with
    | .ok _ after | .error _ after => ∀ e ∈ after.calls, P e.given := by
  induction calls generalizing d log with
  | nil => exact before
  | cons call calls ih =>
    have rest : ∀ call ∈ calls, P call := fun call member => all call (List.mem_cons_of_mem _ member)
    rw [Delivery.calls, bind_apply]
    by_cases detached : d.detached = true
    · simp only [Delivery.call, detached, if_true, pure_apply]
      exact ih rest d log before
    · have given : ∀ reply, ∀ e ∈ log.calls ++ [⟨shown, call, reply⟩], P e.given := by
        intro reply e member
        rcases List.mem_append.mp member with member | member
        · exact before e member
        · obtain rfl := List.mem_singleton.mp member
          exact all call List.mem_cons_self
      simp only [Delivery.call, detached, Bool.false_eq_true, if_false, bind_apply, Receiver.ask,
        Log.receiver]
      rcases receiver shown log.world call with ⟨world, _ | _ | reason⟩
      · exact ih rest _ _ (given .keep)
      · exact ih rest _ _ (given .detach)
      · exact given (.crash reason)

namespace Config

def Call.isClosing : Call → Bool
  | .done _ => true
  | _ => false

/-- The calls for the content of a file do not close it. -/
theorem calls_open (policy : Policy) (inSection : Bool) (forest : List (Tree Action)) :
    ∀ call ∈ calls policy inSection forest, call.isClosing = false := by
  induction forest generalizing inSection with
  | nil => simp [calls]
  | cons tree rest ih =>
    intro call member
    rw [calls] at member
    split at member
    · rcases List.mem_cons.mp member with rfl | member
      · rfl
      · exact ih true call member
    · split at member
      · rcases List.mem_cons.mp member with rfl | member
        · by_cases inside : inSection = true <;> simp [inside, Call.isClosing]
        · exact ih inSection call member
      · exact ih inSection call member
    · exact ih inSection call member

/-- What an interruption with this fault leaves of a validity, by the calls that were made: the old
one, or the one that the interrupted closing call was told. -/
def Leaves (fault : Fault) (before : Bool) (calls : List (Exchange Parser Call)) (after : Bool) :
    Prop :=
  (∀ e ∈ calls, e.given.isClosing = false) ∧ after = before ∨
  ∃ earlier e reason, calls = earlier ++ [e] ∧ (∀ e ∈ earlier, e.given.isClosing = false) ∧
    e.given = .done after ∧ e.reply = .crash reason ∧ fault = .callback reason

namespace Parser

/-- A replay makes the calls for the content, notes the validity, and makes the closing call. -/
theorem replay_apply (shown : Parser) (client : Client σ) (forest : List (Tree Action))
    (flag : Bool) (world : σ) :
    let valid := forest.all isValid
    replay shown client forest (flag, world) =
      match Delivery.calls (client.receiver shown) {} (calls shown.policy false forest) world with
      | .error fault world => .error fault (flag, world)
      | .ok ⟨true⟩ world => .ok valid (valid, world)
      | .ok ⟨false⟩ world =>
        match (client.receiver { shown with valid }).ask (.done valid) world with
        | .ok _ world => .ok valid (valid, world)
        | .error fault world => .error fault (valid, world) := by
  intro valid
  simp only [replay, bind_apply, besideOwn]
  rcases Delivery.calls (client.receiver shown) {} (calls shown.policy false forest) world with
    ⟨⟨_ | _⟩, world⟩ | ⟨fault, world⟩
  · change ((besideOwn ((client.receiver { shown with valid }).ask (.done valid)) >>= fun _ =>
      pure valid) : EStateM Fault (Bool × σ) Bool) (valid, world) = _
    simp only [bind_apply, besideOwn]
    cases (client.receiver { shown with valid }).ask (.done valid) world <;> rfl
  · rfl
  · rfl

/-- The closing call of a replay is the only one that is made with the new validity noted. -/
theorem replay_interrupted (shown : Parser) (client : Client σ) (forest : List (Tree Action))
    {flag flag' : Bool} {log log' : Log Parser Call σ} {fault : Fault}
    (before : ∀ e ∈ log.calls, e.given.isClosing = false)
    (interrupted : replay shown client.logged forest (flag, log) = .error fault (flag', log')) :
    Leaves fault flag log'.calls flag' := by
  have content := calls_given client.receiver shown _ (calls_open shown.policy false forest) {} log
    before
  rw [replay_apply] at interrupted
  simp only [Client.logged] at interrupted
  rcases made : Delivery.calls (Log.receiver client.receiver shown) {}
    (calls shown.policy false forest) log with ⟨⟨_ | _⟩, middle⟩ | ⟨fault, middle⟩
  all_goals
    rw [made] at content
    simp only [made] at interrupted
  · -- The closing call is made.
    simp only [Receiver.ask, Log.receiver] at interrupted
    rcases answered : client.receiver { shown with valid := forest.all isValid } middle.world
      (.done (forest.all isValid)) with ⟨world, _ | _ | reason⟩
    all_goals
      simp only [answered] at interrupted
      cases interrupted
    exact .inr ⟨middle.calls, _, reason, rfl, content, rfl, rfl, rfl⟩
  · cases interrupted
  · cases interrupted
    exact .inl ⟨content, rfl⟩

theorem parse_of_driver {p : Parser} {source : Source} {start stop : Nat} {client : Client σ}
    {world : σ} {result : Backtrack.Parsed (Bool × σ)}
    (parsed : p.driver.parse (client.besideFlag fun driver => { p with driver })
      (Grammar.root p.policy) source start stop (p.valid, world) = result) :
    p.parseRange source start stop client world =
      ⟨{ p with driver := result.driver, valid := result.world.1 }, result.world.2,
        result.outcome⟩ := by
  rw [p.parse_eq, parsed]

/-- An interrupted parse has been interrupted in its match or in its replay. -/
theorem parse_interrupted_valid {p : Parser} (idle : p.driver.busy = false) (source : Source)
    (start stop : Nat) (client : Client σ) (world : σ) {fault : Fault}
    (interrupted : (p.parseRange source start stop client.logged { world }).outcome =
      .error fault) :
    Leaves fault p.valid (p.parseRange source start stop client.logged { world }).world.calls
      (p.parseRange source start stop client.logged { world }).parser.valid := by
  let host := client.logged.besideFlag fun driver => { p with driver }
  let rule := Grammar.root p.policy
  have keeps (state : Bool × Log Parser Call σ) (notice : Notice)
      (same : state.1 = p.valid ∧ state.2.calls = []) :
      (host.sink p.driver.inside state notice).1.1 = p.valid ∧
        (host.sink p.driver.inside state notice).1.2.calls = [] := same
  cases refused : Driver.refuse? source.size start stop with
  | some outcome =>
    rw [parse_of_driver (Driver.parse_refused idle refused ..)] at interrupted
    cases interrupted
  | none =>
    by_cases matched : ∃ next s, rule.run (p.driver.subject host source stop) false start
      (Driver.fresh Action (p.valid, { world })) = .ok (some next) s
    · obtain ⟨next, s, run⟩ := matched
      obtain ⟨empty, forest, -, -, read⟩ :=
        Driver.root_matched (Shipped.config p.policy).balanced refused run
      obtain ⟨flag, silent⟩ := Driver.run_confined keeps ⟨rfl, rfl⟩ run
      cases replayed : host.replay p.driver.inside forest s.diagnostics.world with
      | ok valid after =>
        rw [parse_of_driver (Driver.parse_matched idle refused run empty read replayed)]
          at interrupted
        cases interrupted
      | error fault' after =>
        rw [parse_of_driver (Driver.parse_faulted idle refused run empty read replayed)]
          at interrupted ⊢
        obtain rfl : fault' = fault := Except.error.inj interrupted
        rw [← flag]
        refine replay_interrupted { p with driver := p.driver.inside } client forest ?_ replayed
        rw [silent]
        exact List.forall_mem_nil _
    · have unmatched (next s) : rule.run (p.driver.subject host source stop) false start
          (Driver.fresh Action (p.valid, { world })) ≠ .ok (some next) s :=
        fun run => matched ⟨next, s, run⟩
      obtain ⟨flag, silent⟩ := Driver.parse_confined keeps ⟨rfl, rfl⟩ idle refused unmatched
      generalize parsed : p.driver.parse host rule source start stop (p.valid, { world }) = result
        at flag silent
      rw [parse_of_driver parsed]
      refine .inl ⟨?_, flag⟩
      rw [silent]
      exact List.forall_mem_nil _

/-- Some requests leave a new parser like this. -/
def Reachable (p : Parser) : Prop :=
  ∃ (τ : Type) (policy : Policy) (past : List (Request τ)) (world : τ),
    ((service τ).after past (build policy) world).1 = p

theorem Reachable.serves {p : Parser} (reachable : p.Reachable) : ∃ policy, p.Serves policy := by
  obtain ⟨τ, policy, past, world, rfl⟩ := reachable
  exact ⟨_, service_keeps.after (build_serves policy) past world⟩

end Parser
end Config

/-- A config parse that the caller interrupts leaves the policy, the report, the budget and an idle
driver with empty stacks. It leaves the validity too, unless what it interrupts is the closing call:
then that call is the last one that was made, and the validity is the one that it was told. -/
theorem parse_interrupted (p : Config.Parser) (reachable : p.Reachable) (source : Source)
    (start stop : Nat) (client : Config.Client σ) (world : σ) (fault : Fault)
    (interrupted : (p.parseRange source start stop client world).outcome = .error fault) :
    let after := (p.parseRange source start stop client world).parser
    let calls := (p.parseRange source start stop client.logged { world }).world.calls
    after.policy = p.policy ∧ after.driver.lastReport = p.driver.lastReport ∧
    after.driver.budget = p.driver.budget ∧
    (after.driver.busy = false ∧ after.driver.pendingDepth = 0 ∧ after.driver.crumbDepth = 0) ∧
    Config.Leaves fault p.valid calls after.valid := by
  intro after calls
  obtain ⟨policy, serves⟩ := reachable.serves
  have idle : p.driver.busy = false := serves.rests.quiet
  have logged := p.parse_logged source start stop client world
  obtain ⟨driver, -, outcome⟩ := p.parse_host source start stop client world
  have rests : after.driver.Rests _ _ := driver ▸ serves.rests.parse ..
  have kept : after.driver = { p.driver with pending := {}, crumbs := {} } :=
    driver.trans (Driver.parse_interrupted_driver idle (outcome.symm.trans interrupted))
  refine ⟨rfl, ?_, ?_, rests.shows_empty, ?_⟩
  · rw [kept]
    rfl
  · rw [kept]
  · have valid : after.valid = _ := congrArg (·.parser.valid) logged
    rw [valid]
    apply Config.Parser.parse_interrupted_valid idle
    rw [← interrupted, logged]

/-- After a valid parse the caller gives up at the key of a file whose second line is broken. -/
theorem parse_interrupted_key :
    let past : List (Config.Request Unit) := [⟨[], #[0x6B, 0x0A], 0, 2, .deaf⟩]
    let p := ((Config.Parser.service Unit).after past (.build {}) ()).1
    let source : Source := #[0x6B, 0x0A, 0x5B, 0x0A]
    let client : Config.Client Unit :=
      ⟨fun _ _ _ => ((), .crash "gave up"), fun _ _ _ => ((), .keep)⟩
    let parsed := p.parseRange source 0 4 client ()
    p.Reachable ∧ parsed.outcome.toOption = none ∧ p.valid = true ∧ parsed.parser.valid = true ∧
    parsed.parser.driver.lastReport = p.driver.lastReport := by
  intro past p source client parsed
  have reachable : p.Reachable := ⟨Unit, {}, past, (), rfl⟩
  have ended : parsed.outcome.toOption = none := by decide +kernel
  have before : p.valid = true := by decide +kernel
  obtain ⟨fault, interrupted⟩ := exists_error_of_toOption ended
  obtain ⟨-, report, -, -, left⟩ :=
    parse_interrupted p reachable source 0 4 client () fault interrupted
  refine ⟨reachable, ended, before, ?_, report⟩
  obtain ⟨-, same⟩ | ⟨earlier, e, reason, made, -, closing, -, -⟩ := left
  · exact same.trans before
  · have last : (p.parseRange source 0 4 client.logged { world := () }).world.calls.getLast?.map
      (·.given.isClosing) = some false := by decide +kernel
    rw [made, List.getLast?_concat] at last
    simp [closing, Config.Call.isClosing] at last

/-- An interruption at the closing call changes what the parser tells of its validity. -/
theorem closing_call_interrupted :
    ¬ ∀ (p : Config.Parser), p.Reachable → ∀ (source : Source) (start stop : Nat)
      (client : Config.Client Unit) (fault : Fault),
      (p.parseRange source start stop client ()).outcome = .error fault →
      (p.parseRange source start stop client ()).parser.valid = p.valid := by
  intro kept
  let p : Config.Parser := .build {}
  let client : Config.Client Unit :=
    ⟨fun _ _ call => ((), if call.isClosing then .crash "gave up" else .keep),
      fun _ _ _ => ((), .keep)⟩
  have ended : (p.parseRange #[0x6B, 0x0A] 0 2 client ()).outcome.toOption = none := by
    decide +kernel
  obtain ⟨fault, interrupted⟩ := exists_error_of_toOption ended
  have same := kept p ⟨Unit, {}, [], (), rfl⟩ #[0x6B, 0x0A] 0 2 client fault interrupted
  exact absurd same (by decide +kernel)

end Backtrack
