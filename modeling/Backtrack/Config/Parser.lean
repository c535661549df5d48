import Backtrack.Config.Call
import Backtrack.Script

/-! A parser for config files under one policy. It remembers whether the last replayed parse was
valid, and writes that down before the closing call. -/
namespace Backtrack.Config

/-- Takes the place of the last message when the budget is used up. -/
def abortRestatement : String := "Unable to continue parsing config contents."

structure Parser where
  policy : Policy
  driver : Driver
  valid : Bool := false

/-- The caller's functions, shown the parser as it is when they are called. -/
structure Client (σ : Type) where
  receiver : Parser → Receiver σ Call
  sink : Parser → σ → Notice → σ × Reply

structure Parsed (σ : Type) where
  parser : Parser
  world : σ
  outcome : Except Fault Outcome

namespace Parser

variable {σ : Type}

def build (policy : Policy) : Parser :=
  ⟨policy, ({ restatement := some abortRestatement } : Driver).withBudget policy.budget, false⟩

def ofPolicy (policy : Policy) : Except PolicyError Parser := do
  policy.validate
  return build policy

/-- Begins anew under another policy. A policy that is not in order is turned down. -/
def setPolicy (p : Parser) (policy : Policy) : Parser × Except PolicyError Unit :=
  match ofPolicy policy with
  | .ok renewed => (renewed, .ok ())
  | .error error => (p, .error error)

/-- Delivers the calls, judges the journal, and makes the closing call unless detached. -/
def replay (inside : Parser) (client : Client σ) (forest : List (Tree Action)) :
    EStateM Fault (Bool × σ) Bool := do
  let calls := calls inside.policy false forest
  let delivery ← besideOwn (Delivery.calls (client.receiver inside) {} calls)
  let valid := forest.all isValid
  modify fun (_, world) => (valid, world)
  if !delivery.detached then
    let _ ← besideOwn ((client.receiver { inside with valid }).ask (.done valid))
  return valid

def parseRange (p : Parser) (source : Source) (start stop : Nat) (client : Client σ) (world : σ) :
    Parsed σ :=
  let sink (driver : Driver) (state : Bool × σ) (notice : Notice) :=
    let (world, reply) := client.sink { p with driver } state.2 notice
    ((state.1, world), reply)
  let replay (driver : Driver) := replay { p with driver } client
  let parsed :=
    p.driver.parse ⟨sink, replay⟩ (Grammar.root p.policy) source start stop (p.valid, world)
  ⟨{ p with driver := parsed.driver, valid := parsed.world.1 }, parsed.world.2, parsed.outcome⟩

def parse (p : Parser) (source : Source) (client : Client σ) (world : σ) : Parsed σ :=
  p.parseRange source 0 source.size client world

end Parser

/-- Accepts everything and remembers nothing. -/
def Client.deaf : Client Unit := ⟨fun _ _ _ => ((), .keep), fun _ _ _ => ((), .keep)⟩

/-- Scripted functions. A caller that re-enters asks for a file with the one key `k`. -/
def Client.scripted (receiver : Script) (sink : SinkScript) : Client (Account Call) :=
  let again (inside : Parser) (_ : Unit) :=
    let parsed := inside.parse #[0x6B, 0x0A] .deaf ()
    (parsed.outcome, parsed.parser.driver)
  ⟨fun inside account call => account.call receiver (again inside) call,
    fun inside account notice => account.message sink (again inside) notice⟩

end Backtrack.Config
