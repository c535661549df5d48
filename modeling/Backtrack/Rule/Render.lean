import Backtrack.Rule

/-! The printed form of rules. -/
namespace Backtrack

def Message.render (m : Message) : String :=
  let origin := match m.origin with
    | some origin => "Some(" ++ Text.quoted origin ++ ")"
    | none => "None"
  "Message \x7b level: " ++ m.level.name ++ ", text: " ++ Text.quoted m.text ++
    ", origin: " ++ origin ++ " \x7d"

def Effect.render : Effect → String
  | push m => "Push(" ++ m.render ++ ")"
  | prepare m => "Prepare(" ++ m.render ++ ")"
  | cancel => "Cancel"
  | pop => "Pop"
  | popAbandoned => "PopAbandoned"
  | sendNow m => "SendNow(" ++ m.render ++ ")"
  | enterScope label => "EnterScope(" ++ Text.quoted label ++ ")"
  | leaveScope => "LeaveScope"
  | replaceScope label => "ReplaceScope(" ++ Text.quoted label ++ ")"

def Rule.render {α : Type} (name : α → String) : Rule α → String
  | empty => "Empty"
  | nothing => "Nothing"
  | literal bytes => Text.quoted (Text.lossy bytes)
  | set s => s.render
  | endOfInput => "EndOfInput"
  | skipTo s => "SkipTo(" ++ s.render ++ ")"
  | seq a b => "(" ++ a.render name ++ " >> " ++ b.render name ++ ")"
  | choice a b => "(" ++ a.render name ++ " | " ++ b.render name ++ ")"
  | difference a b => "(" ++ a.render name ++ " - " ++ b.render name ++ ")"
  | optional rule => "!" ++ rule.render name
  | many rule => "*" ++ rule.render name
  | many1 rule => "+" ++ rule.render name
  | action rule a => rule.render name ++ "[" ++ name a ++ "]"
  | effect rule e => rule.render name ++ "[" ++ e.render ++ "]"

end Backtrack
