import Backtrack.Script
import Backtrack.Xml.Construct

/-! A parser for all XML constructs over one driver. It remembers for each construct whether its
last replayed parse was valid. A fault in a call leaves that memory as it was. -/
namespace Backtrack.Xml

structure Parser where
  driver : Driver := {}
  valid : Construct → Bool := fun _ => false

/-- The caller's functions, shown the parser as it is when they are called. -/
structure Client (σ : Type) where
  receiver : Parser → Receiver σ Call
  sink : Parser → σ → Notice → σ × Reply

structure Parsed (σ : Type) where
  parser : Parser
  world : σ
  outcome : Except Fault Outcome

namespace Parser

variable {σ : Type}

def withBudget (p : Parser) (budget : Nat) : Parser :=
  { p with driver := p.driver.withBudget budget }

def setValid (valid : Construct → Bool) (construct : Construct) (value : Bool) :
    Construct → Bool :=
  fun c => if c = construct then value else valid c

/-- Delivers the calls, then judges the journal. -/
def replay (construct : Construct) (receiver : Receiver σ Call) (forest : List (Tree Action)) :
    EStateM Fault ((Construct → Bool) × σ) Bool := do
  let _ ← besideOwn (Delivery.items receiver {} (forest.flatMap construct.items))
  let valid := forest.all isValid
  modify fun (flags, world) => (setValid flags construct valid, world)
  return valid

def parse (p : Parser) (construct : Construct) (source : Source) (client : Client σ) (world : σ) :
    Parsed σ :=
  let inside (driver : Driver) : Parser := { p with driver }
  let sink (driver : Driver) (state : (Construct → Bool) × σ) (notice : Notice) :=
    let (world, reply) := client.sink (inside driver) state.2 notice
    ((state.1, world), reply)
  let replay (driver : Driver) := replay construct (client.receiver (inside driver))
  let parsed := p.driver.parse ⟨sink, replay⟩ construct.rule source 0 source.size (p.valid, world)
  ⟨⟨parsed.driver, parsed.world.1⟩, parsed.world.2, parsed.outcome⟩

end Parser

/-- Accepts everything and remembers nothing. -/
def Client.deaf : Client Unit := ⟨fun _ _ _ => ((), .keep), fun _ _ _ => ((), .keep)⟩

/-- Scripted functions. A caller that re-enters asks for the name `x`. -/
def Client.scripted (receiver : Script) (sink : SinkScript) : Client (Account Call) :=
  let again (inside : Parser) (_ : Unit) :=
    let parsed := inside.parse .name #[0x78] .deaf ()
    (parsed.outcome, parsed.parser.driver)
  ⟨fun inside account call => account.call receiver (again inside) call,
    fun inside account notice => account.message sink (again inside) notice⟩

end Backtrack.Xml
