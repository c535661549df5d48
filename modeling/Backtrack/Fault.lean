import Backtrack.Text.Quoted

/-! Faults: promises that a caller or a grammar broke. A fault ends the operation on the spot and
leaves all state as it is at that moment. -/
namespace Backtrack

inductive Fault where
  | invertedSpan (start stop : Nat)
  | nothingToPrepare (text : String)
  | nothingToCancel (line : Nat)
  | pendingAfterMatch
  /-- A function supplied by the caller gave up. -/
  | callback (reason : String)
  deriving DecidableEq

def Fault.message : Fault → String
  | invertedSpan start stop => s!"span start {start} is past its end {stop}"
  | nothingToPrepare text => "prepare with no pending diagnostic: " ++ Text.quoted text
  | nothingToCancel line => s!"cancel with no pending diagnostic at line {line}"
  | pendingAfterMatch => "assertion `left == right` failed: unbalanced diagnostic stack"
  | callback reason => reason

end Backtrack
