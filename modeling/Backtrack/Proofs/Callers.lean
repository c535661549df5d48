import Backtrack.Config.Parser
import Backtrack.Proofs.Watching
import Backtrack.Xml.Parser

/-! The functions of a client as the driver calls them. A parser keeps its memory of what was valid
beside the caller's state. Nothing in a parse reads that memory, so a request on a parser is also a
parse by its driver with the client alone as the host. -/
namespace Backtrack

variable {σ τ υ β : Type}

/-- A sink on the caller's state beside a state of one's own. -/
def sinkBesideOwn (sink : σ → Notice → σ × Reply) (state : τ × σ) (notice : Notice) :
    (τ × σ) × Reply :=
  let (world, reply) := sink state.2 notice
  ((state.1, world), reply)

theorem besideOwn_simulates (step : EStateM Fault σ β) :
    Simulates Prod.snd (besideOwn (τ := τ) step) step := by
  rintro ⟨own, world⟩
  simp only [besideOwn]
  cases step world <;> rfl

theorem Simulates.besideOwn {f : σ → υ} {x : EStateM Fault σ β} {y : EStateM Fault υ β}
    (same : Simulates f x y) :
    Simulates (Prod.map id f) (besideOwn (τ := τ) x) (besideOwn (τ := τ) y) := by
  rintro ⟨own, world⟩
  simp only [Backtrack.besideOwn, Prod.map, same world]
  cases x world <;> rfl

section Delivery

variable {κ : Type} {f : σ → υ} {receiver : Receiver σ κ} {receiver' : Receiver υ κ}

theorem ask_simulates
    (same : ∀ world call, receiver' (f world) call =
      (f (receiver world call).1, (receiver world call).2)) (call : κ) :
    Simulates f (receiver.ask call) (receiver'.ask call) := by
  intro world
  simp only [Receiver.ask, same]
  rcases receiver world call with ⟨world', _ | _ | reason⟩ <;> rfl

theorem call_simulates {ask : EStateM Fault σ Bool} {ask' : EStateM Fault υ Bool}
    (same : Simulates f ask ask') (d : Delivery) : Simulates f (d.call ask) (d.call ask') := by
  obtain ⟨_ | _⟩ := d
  · exact same.bind fun _ => Simulates.pure _
  · exact Simulates.pure _

theorem calls_simulates
    (same : ∀ world call, receiver' (f world) call =
      (f (receiver world call).1, (receiver world call).2)) (d : Delivery) (calls : List κ) :
    Simulates f (d.calls receiver calls) (d.calls receiver' calls) := by
  induction calls generalizing d with
  | nil => exact Simulates.pure _
  | cons call calls ih => exact (call_simulates (ask_simulates same call) d).bind fun d => ih d

theorem items_simulates
    (same : ∀ world call, receiver' (f world) call =
      (f (receiver world call).1, (receiver world call).2)) (d : Delivery)
    (items : List (Item κ)) : Simulates f (d.items receiver items) (d.items receiver' items) := by
  induction items generalizing d with
  | nil => exact Simulates.pure _
  | cons item items ih =>
    cases item with
    | call call => exact (call_simulates (ask_simulates same call) d).bind fun d => ih d
    | block opening inner =>
      obtain ⟨_ | _⟩ := d
      · refine (ask_simulates same opening).bind fun _ => ?_
        exact (calls_simulates same {} inner).bind fun _ => ih {}
      · exact ih ⟨true⟩

end Delivery

namespace Xml

/-- The client at one construct, where `shown` is the parser that its functions see. -/
def Client.host (client : Client σ) (shown : Driver → Parser) (construct : Construct) :
    Host σ Action where
  sink driver := client.sink (shown driver)
  replay driver forest := do
    let _ ← Delivery.items (client.receiver (shown driver)) {} (forest.flatMap construct.items)
    return forest.all isValid

/-- The client beside the memory of the parser. -/
def Client.besideFlags (client : Client σ) (shown : Driver → Parser) (construct : Construct) :
    Host ((Construct → Bool) × σ) Action where
  sink driver := sinkBesideOwn (client.sink (shown driver))
  replay driver := Parser.replay construct (client.receiver (shown driver))

variable (p : Parser) (construct : Construct) (source : Source) (client : Client σ) (world : σ)

theorem Parser.parse_eq :
    let parsed := p.driver.parse (client.besideFlags (fun driver => { p with driver }) construct)
      construct.rule source 0 source.size (p.valid, world)
    p.parse construct source client world =
      ⟨⟨parsed.driver, parsed.world.1⟩, parsed.world.2, parsed.outcome⟩ := rfl

theorem Parser.replay_simulates (receiver : Receiver σ Call) (forest : List (Tree Action)) :
    Simulates Prod.snd (Parser.replay construct receiver forest) do
      let _ ← Delivery.items receiver {} (forest.flatMap construct.items)
      return forest.all isValid := by
  refine Simulates.bind (besideOwn_simulates _) fun _ => ?_
  rintro ⟨flags, world⟩
  rfl

theorem Parser.parse_host :
    let parsed := p.driver.parse (client.host (fun driver => { p with driver }) construct)
      construct.rule source 0 source.size world
    let result := p.parse construct source client world
    result.parser.driver = parsed.driver ∧ result.world = parsed.world ∧
      result.outcome = parsed.outcome := by
  intro parsed result
  let shown (driver : Driver) : Parser := { p with driver }
  have same : parsed = _ := Driver.parse_simulates Prod.snd p.driver
    (client.besideFlags shown construct) (client.host shown construct) (fun _ _ => rfl)
    (Parser.replay_simulates construct _) construct.rule source 0 source.size (p.valid, world)
  rw [same]
  exact ⟨rfl, rfl, rfl⟩

end Xml

namespace Config

/-- The client as a host, where `shown` is the parser that its functions see. The closing call is
shown the new validity. -/
def Client.host (client : Client σ) (shown : Driver → Parser) : Host σ Action where
  sink driver := client.sink (shown driver)
  replay driver forest := do
    let inside := shown driver
    let delivery ← Delivery.calls (client.receiver inside) {} (calls inside.policy false forest)
    let valid := forest.all isValid
    if !delivery.detached then
      let _ ← (client.receiver { inside with valid }).ask (.done valid)
    return valid

/-- The client beside the memory of the parser. -/
def Client.besideFlag (client : Client σ) (shown : Driver → Parser) : Host (Bool × σ) Action where
  sink driver := sinkBesideOwn (client.sink (shown driver))
  replay driver := Parser.replay (shown driver) client

variable (p : Parser) (source : Source) (start stop : Nat) (client : Client σ) (world : σ)

theorem Parser.parse_eq :
    let parsed := p.driver.parse (client.besideFlag fun driver => { p with driver })
      (Grammar.root p.policy) source start stop (p.valid, world)
    p.parseRange source start stop client world =
      ⟨{ p with driver := parsed.driver, valid := parsed.world.1 }, parsed.world.2,
        parsed.outcome⟩ := rfl

theorem Parser.replay_simulates (shown : Driver → Parser) (driver : Driver)
    (forest : List (Tree Action)) :
    Simulates Prod.snd (Parser.replay (shown driver) client forest)
      ((client.host shown).replay driver forest) := by
  refine Simulates.bind (besideOwn_simulates _) fun delivery => ?_
  have closing (ask : EStateM Fault σ Bool) :=
    (besideOwn_simulates (τ := Bool) ask).bind fun _ => Simulates.pure (forest.all isValid)
  rintro ⟨flag, world⟩
  cases delivery.detached with
  | true => rfl
  | false => exact closing _ (forest.all isValid, world)

theorem Parser.parse_host :
    let parsed := p.driver.parse (client.host fun driver => { p with driver })
      (Grammar.root p.policy) source start stop world
    let result := p.parseRange source start stop client world
    result.parser.driver = parsed.driver ∧ result.world = parsed.world ∧
      result.outcome = parsed.outcome := by
  intro parsed result
  let shown (driver : Driver) : Parser := { p with driver }
  have same : parsed = _ := Driver.parse_simulates Prod.snd p.driver (client.besideFlag shown)
    (client.host shown) (fun _ _ => rfl) (Parser.replay_simulates client shown p.driver.inside)
    (Grammar.root p.policy) source start stop (p.valid, world)
  rw [same]
  exact ⟨rfl, rfl, rfl⟩

end Config
end Backtrack
