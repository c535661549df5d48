import Backtrack.Diagnostics

/-! Calls on a receiver. A receiver that refuses a call is detached: later calls are skipped and the
verdict stays the same. A block is a call that opens a receiver of its own; a refusal inside the
block ends the block alone. -/
namespace Backtrack

/-- A receiver of calls, as a function on the caller's state. -/
abbrev Receiver (σ κ : Type) := σ → κ → σ × Reply

structure Delivery where
  detached : Bool := false
  deriving DecidableEq

inductive Item (κ : Type) where
  | call (call : κ)
  /-- The opening call has no answer. -/
  | block (opening : κ) (calls : List κ)
  deriving DecidableEq

variable {σ κ : Type}

/-- Makes one call and tells whether the receiver goes on. -/
def Receiver.ask (receiver : Receiver σ κ) (call : κ) : EStateM Fault σ Bool := fun world =>
  match receiver world call with
  | (world, .keep) => .ok true world
  | (world, .detach) => .ok false world
  | (world, .crash reason) => .error (.callback reason) world

namespace Delivery

/-- Makes one call unless the receiver is detached already. -/
def call (d : Delivery) (ask : EStateM Fault σ Bool) : EStateM Fault σ Delivery := do
  if d.detached then return d
  return ⟨!(← ask)⟩

def calls (receiver : Receiver σ κ) (d : Delivery) : List κ → EStateM Fault σ Delivery
  | [] => return d
  | call :: rest => do calls receiver (← d.call (receiver.ask call)) rest

def items (receiver : Receiver σ κ) (d : Delivery) : List (Item κ) → EStateM Fault σ Delivery
  | [] => return d
  | .call call :: rest => do items receiver (← d.call (receiver.ask call)) rest
  | .block opening inner :: rest => do
    if !d.detached then
      let _ ← receiver.ask opening
      let _ ← calls receiver {} inner
    items receiver d rest

end Delivery

/-- Runs a step on the caller's state beside a state of one's own. -/
def besideOwn {σ τ β : Type} (step : EStateM Fault σ β) : EStateM Fault (τ × σ) β :=
  fun (own, world) =>
    match step world with
    | .ok result world => .ok result (own, world)
    | .error fault world => .error fault (own, world)

end Backtrack
