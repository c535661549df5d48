import Backtrack.CharSet
import Backtrack.Effect

/-! Rules: what to match, with two kinds of notes on it. An action names what was matched and is
entered in the journal; an effect acts on the messages at once. `a ++ b` is a sequence, `a ||| b` an
ordered choice, and `a \ b` matches `a` unless `b` reaches at least as far. -/
namespace Backtrack

inductive Rule (α : Type) where
  | empty
  | nothing
  | literal (bytes : Bytes)
  | set (set : CharSet)
  | endOfInput
  /-- Everything up to and including the first byte of the set. -/
  | skipTo (terminators : CharSet)
  | seq (first second : Rule α)
  | choice (left right : Rule α)
  | difference (keep excluded : Rule α)
  | optional (rule : Rule α)
  | many (rule : Rule α)
  | many1 (rule : Rule α)
  | action (rule : Rule α) (action : α)
  | effect (rule : Rule α) (effect : Effect)

namespace Rule

variable {α : Type}

instance : Append (Rule α) := ⟨seq⟩
instance : OrOp (Rule α) := ⟨choice⟩
instance : SDiff (Rule α) := ⟨difference⟩

def text (s : String) : Rule α := literal (Text.utf8 s)

def byte (b : UInt8) : Rule α := set (CharSet.ofBytes [b])

/-- One byte outside the set. -/
def noneOf (s : CharSet) : Rule α := set (~~~s)

/-- All rules in order. -/
def inOrder : List (Rule α) → Rule α
  | [] => empty
  | rule :: rules => rules.foldl seq rule

/-- The first rule that matches. -/
def firstOf : List (Rule α) → Rule α
  | [] => nothing
  | rule :: rules => rules.foldl choice rule

def push (rule : Rule α) (message : Message) : Rule α := rule.effect (.push message)
def prepare (rule : Rule α) (message : Message) : Rule α := rule.effect (.prepare message)
def cancel (rule : Rule α) : Rule α := rule.effect .cancel
def pop (rule : Rule α) : Rule α := rule.effect .pop
def popAbandoned (rule : Rule α) : Rule α := rule.effect .popAbandoned
def sendNow (rule : Rule α) (message : Message) : Rule α := rule.effect (.sendNow message)
def enterScope (rule : Rule α) (label : String) : Rule α := rule.effect (.enterScope label)
def leaveScope (rule : Rule α) : Rule α := rule.effect .leaveScope
def replaceScope (rule : Rule α) (label : String) : Rule α := rule.effect (.replaceScope label)

end Rule
end Backtrack
