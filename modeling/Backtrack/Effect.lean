import Backtrack.Message

/-! What a rule does to the pending messages and the open scopes at the moment it matches. -/
namespace Backtrack

inductive Effect where
  /-- Keep a message ready in case the rest fails. -/
  | push (message : Message)
  /-- Put a sharper message in place of the pending one. -/
  | prepare (message : Message)
  /-- Forget the pending message: the construct is complete. -/
  | cancel
  /-- Send the pending message: the construct is being skipped. -/
  | pop
  /-- Send what a failed sibling that started at the same place left behind. -/
  | popAbandoned
  | sendNow (message : Message)
  /-- Open a scope named by the matched text. -/
  | enterScope (label : String)
  | leaveScope
  /-- Close the innermost scope and open a sibling named by the matched text. -/
  | replaceScope (label : String)
  deriving DecidableEq

end Backtrack
