import Backtrack.Proofs.Recognition
import Backtrack.Proofs.Trail

/-! Lookaheads are silent. `Rule.Quiet` says that a rule gives one position in all states and leaves
each of them as it is. It is closed under the combinators, so a silent rule is quiet, and so is a
rule without notes, at every position and with the position that the rule recognises. A matcher that
counts the lookaheads it is in runs as the matcher that only knows whether it is in one, and has the
count back at the end of each run. -/
namespace Backtrack

variable {σ α β : Type}

section Beyond

variable {input : Bytes} {rule : Rule α} {pos next : Nat}

/-- Past the end only nothing is left to match. -/
theorem Recognizes.beyond {m : Option Nat} (h : Recognizes input rule pos m)
    (outside : input.length < pos) : m = none ∨ m = some pos := by
  induction h with
  | @leaf rule pos m found =>
    have nothing : input.drop pos = [] := List.drop_eq_nil_of_le (by omega)
    have here : input[pos]? = none := List.getElem?_eq_none (by omega)
    cases rule <;> simp only [Rule.leaf?, Option.some.injEq, reduceCtorEq] at found <;> subst found
    case literal bytes =>
      simp only [nothing, List.prefix_nil]
      split
      next blank => simp [blank]
      next => exact .inl rfl
    all_goals grind
  | seqFail | differenceFail => exact .inl rfl
  | seq _ _ ih₁ ih₂ =>
    obtain same : _ = _ := by simpa using ih₁ outside
    subst same
    exact ih₂ outside
  | choiceLeft _ ih | many1End _ _ ih | action _ ih | effect _ ih => exact ih outside
  | choiceRight _ _ _ ih₂ => exact ih₂ outside
  | difference _ _ ih₁ _ =>
    obtain same : _ = _ := by simpa using ih₁ outside
    subst same
    grind
  | optional _ ih => rcases ih outside with rfl | rfl <;> exact .inr rfl
  | manyEnd => exact .inr rfl
  | manyNext _ apart _ ih₁ _ | many1Next _ apart _ ih₁ _ =>
    exact absurd (by simpa using ih₁ outside) apart

theorem Recognizes.onward (h : Recognizes input rule pos (some next)) (apart : next ≠ pos) :
    pos < next ∧ next ≤ input.length := by
  by_cases inside : pos ≤ input.length
  · have moved := h.advances inside
    omega
  · exact absurd (by simpa using h.beyond (by omega)) apart

theorem Recognizes.total_beyond (outside : input.length < pos) :
    ∃ m, Recognizes input rule pos m := by
  induction rule with
  | seq a b iha ihb =>
    obtain ⟨m, first⟩ := iha
    rcases first.beyond outside with rfl | rfl
    · exact ⟨none, .seqFail first⟩
    · exact ihb.imp fun _ second => .seq first second
  | choice a b iha ihb =>
    obtain ⟨_ | next, left⟩ := iha
    · exact ihb.imp fun _ right => .choiceRight left right
    · exact ⟨some next, .choiceLeft left⟩
  | difference a b iha ihb =>
    obtain ⟨_ | next, keep⟩ := iha
    · exact ⟨none, .differenceFail keep⟩
    · obtain ⟨m, excluded⟩ := ihb
      exact ⟨_, .difference keep excluded⟩
  | optional a ih => exact ih.elim fun _ part => ⟨_, .optional part⟩
  | many a ih => exact ih.elim fun _ once => ⟨_, .manyEnd once (once.beyond outside)⟩
  | many1 a ih => exact ih.elim fun _ once => ⟨_, .many1End once (once.beyond outside)⟩
  | action a act ih => exact ih.imp fun _ part => .action part
  | effect a e ih => exact ih.imp fun _ part => .effect part
  | empty | nothing | literal | set | endOfInput | skipTo => exact ⟨_, .leaf rfl⟩

theorem Recognizes.exists (input : Bytes) (rule : Rule α) (pos : Nat) :
    ∃ m, Recognizes input rule pos m := by
  by_cases inside : pos ≤ input.length
  · exact total input rule pos inside
  · exact total_beyond (by omega)

end Beyond

/-- The rule gives `m` in every state and leaves the state as it is. -/
def Rule.Quiet (subject : Subject σ) (rule : Rule α) (silent : Bool) (pos : Nat)
    (m : Option Nat) : Prop :=
  ∀ s : Matching σ α, rule.step subject silent pos s = .ok m s

namespace Rule.Quiet

variable {subject : Subject σ} {a b : Rule α} {silent : Bool} {pos next : Nat} {m : Option Nat}

theorem run (quiet : a.Quiet subject silent pos m) (s : Matching σ α) :
    a.run subject silent pos s = .ok m s := by
  rw [run_eq, quiet s, Matching.close_unchanged]

theorem seqFail (first : a.Quiet subject silent pos none) :
    (seq a b).Quiet subject silent pos none := fun s => by
  rw [step_seq, first.run]

theorem seq (first : a.Quiet subject silent pos (some next))
    (second : b.Quiet subject silent next m) : (seq a b).Quiet subject silent pos m := fun s => by
  simp only [step_seq, first.run, second.run]

theorem choiceLeft (left : a.Quiet subject silent pos (some next)) :
    (choice a b).Quiet subject silent pos (some next) := fun s => by
  rw [step_choice, left.run]

theorem choiceRight (left : a.Quiet subject silent pos none)
    (right : b.Quiet subject silent pos m) : (choice a b).Quiet subject silent pos m := fun s => by
  simp only [step_choice, left.run, right.run]

theorem differenceFail (keep : a.Quiet subject silent pos none) :
    (difference a b).Quiet subject silent pos none := fun s => by
  rw [step_difference, keep.run]

/-- What is excluded is a lookahead in any case. -/
theorem difference (keep : a.Quiet subject silent pos (some next))
    (excluded : b.Quiet subject true pos m) :
    (difference a b).Quiet subject silent pos (if m.any (next ≤ ·) then none else some next) :=
  fun s => by simp only [step_difference, keep.run, excluded.run]

theorem optional (part : a.Quiet subject silent pos m) :
    (optional a).Quiet subject silent pos (some (m.getD pos)) := fun s => by
  rw [step_optional, part.run]

theorem manyEnd (once : a.Quiet subject silent pos m) (last : m = none ∨ m = some pos) :
    (many a).Quiet subject silent pos (some pos) := fun s => by
  rcases last with rfl | rfl <;> simp [step_many_next, once.run]

theorem manyNext (once : a.Quiet subject silent pos (some next))
    (onward : pos < next ∧ next ≤ subject.stop) (rest : (many a).Quiet subject silent next m) :
    (many a).Quiet subject silent pos m := fun s => by
  rw [step_many_next, once.run]
  exact (if_pos onward).trans (rest s)

theorem many1End (once : a.Quiet subject silent pos m) (last : m = none ∨ m = some pos) :
    (many1 a).Quiet subject silent pos m := fun s => by
  rcases last with rfl | rfl <;> simp [step_many1, once.run]

theorem many1Next (once : a.Quiet subject silent pos (some next)) (apart : next ≠ pos)
    (rest : (many a).Quiet subject silent next m) :
    (many1 a).Quiet subject silent pos m := fun s => by
  rw [step_many1, once.run]
  exact (if_neg apart).trans (rest s)

theorem action {act : α} (part : a.Quiet subject true pos m) :
    (action a act).Quiet subject true pos m := fun s => by
  rw [step_action, if_pos rfl, part.run]

theorem effect {e : Effect} (part : a.Quiet subject true pos m) :
    (effect a e).Quiet subject true pos m := fun s => by
  rw [step_effect, if_pos rfl, part.run]

end Rule.Quiet

/-- A rule is quiet in a lookahead, and without its notes it is quiet at all times. -/
theorem Recognizes.quiet {subject : Subject σ} (bounded : subject.Bounded) {rule : Rule α}
    {pos : Nat} {m : Option Nat} (h : Recognizes subject.input rule pos m) :
    rule.Quiet subject true pos m ∧ ∀ silent, rule.erase.Quiet subject silent pos m := by
  induction h with
  | leaf found =>
    exact ⟨fun s => Rule.step_leaf bounded found true s,
      fun silent s => Rule.step_leaf bounded (Rule.leaf?_erase found) silent s⟩
  | seqFail _ ih => exact ⟨ih.1.seqFail, fun silent => (ih.2 silent).seqFail⟩
  | seq _ _ ih₁ ih₂ => exact ⟨ih₁.1.seq ih₂.1, fun silent => (ih₁.2 silent).seq (ih₂.2 silent)⟩
  | choiceLeft _ ih => exact ⟨ih.1.choiceLeft, fun silent => (ih.2 silent).choiceLeft⟩
  | choiceRight _ _ ih₁ ih₂ =>
    exact ⟨ih₁.1.choiceRight ih₂.1, fun silent => (ih₁.2 silent).choiceRight (ih₂.2 silent)⟩
  | differenceFail _ ih => exact ⟨ih.1.differenceFail, fun silent => (ih.2 silent).differenceFail⟩
  | difference _ _ ih₁ ih₂ =>
    exact ⟨ih₁.1.difference ih₂.1, fun silent => (ih₁.2 silent).difference (ih₂.2 true)⟩
  | optional _ ih => exact ⟨ih.1.optional, fun silent => (ih.2 silent).optional⟩
  | manyEnd _ last ih => exact ⟨ih.1.manyEnd last, fun silent => (ih.2 silent).manyEnd last⟩
  | manyNext once apart _ ih₁ ih₂ =>
    have onward := bounded.length_input ▸ once.onward apart
    exact ⟨ih₁.1.manyNext onward ih₂.1, fun silent => (ih₁.2 silent).manyNext onward (ih₂.2 silent)⟩
  | many1End _ last ih => exact ⟨ih.1.many1End last, fun silent => (ih.2 silent).many1End last⟩
  | many1Next _ apart _ ih₁ ih₂ =>
    exact ⟨ih₁.1.many1Next apart ih₂.1, fun silent => (ih₁.2 silent).many1Next apart (ih₂.2 silent)⟩
  | action _ ih => exact ⟨ih.1.action, ih.2⟩
  | effect _ ih => exact ⟨ih.1.effect, ih.2⟩

/-- A state of a matcher that counts the lookaheads in progress. -/
structure Peeking (σ α : Type) where
  matching : Matching σ α
  depth : Nat

abbrev PeekM (σ α : Type) := EStateM Stop (Peeking σ α)

namespace Peeking

def attempt (body : PeekM σ α (Option Nat)) (pos : Nat) : PeekM σ α (Option Nat) := fun s =>
  let recorded := s.matching.events.size
  let mark := s.matching.diagnostics.mark
  match body s with
  | .ok (some next) ⟨⟨events, diagnostics⟩, depth⟩ =>
    .ok (some next) ⟨⟨events, diagnostics.settle mark⟩, depth⟩
  | .ok none ⟨⟨events, diagnostics⟩, depth⟩ =>
    .ok none ⟨⟨events.shrink recorded, diagnostics.rewind mark pos⟩, depth⟩
  | .error stop s => .error stop s

def iterate (body : Nat → PeekM σ α (Option Nat)) (limit pos : Nat) : PeekM σ α Nat := fun s =>
  match body pos s with
  | .ok (some next) s => if pos < next ∧ next ≤ limit then iterate body limit next s else .ok pos s
  | .ok none s => .ok pos s
  | .error stop s => .error stop s
termination_by limit - pos

/-- Runs `body` as one more lookahead, and counts it off however it ends. -/
def peek {β : Type} (body : PeekM σ α β) : PeekM σ α β := fun ⟨matching, depth⟩ =>
  match body ⟨matching, depth + 1⟩ with
  | .ok result ⟨matching, depth⟩ => .ok result ⟨matching, depth - 1⟩
  | .error stop ⟨matching, depth⟩ => .error stop ⟨matching, depth - 1⟩

def record (body : PeekM σ α (Option Nat)) (action : α) (pos : Nat) : PeekM σ α (Option Nat) :=
  fun ⟨⟨events, diagnostics⟩, depth⟩ =>
    if 0 < depth then body ⟨⟨events, diagnostics⟩, depth⟩
    else
      let slot := events.size
      match body ⟨⟨events.push .placeholder, diagnostics⟩, depth⟩ with
      | .ok (some next) ⟨matching, depth⟩ =>
        .ok (some next) ⟨matching.fill slot action pos next, depth⟩
      | result => result

def perform (subject : Subject σ) (e : Effect) (start stop : Nat) : PeekM σ α Unit :=
  fun ⟨matching, depth⟩ =>
    if 0 < depth then .ok () ⟨matching, depth⟩
    else match Matching.perform subject e start stop matching with
    | .ok _ matching => .ok () ⟨matching, depth⟩
    | .error stop matching => .error stop ⟨matching, depth⟩

end Peeking

open Peeking in
/-- Matches a rule with the lookaheads counted in the state. -/
def Rule.count (subject : Subject σ) : Rule α → Nat → PeekM σ α (Option Nat)
  | seq first second, pos => do
    match ← attempt (first.count subject pos) pos with
    | some next => attempt (second.count subject next) next
    | none => return none
  | choice left right, pos => do
    match ← attempt (left.count subject pos) pos with
    | some next => return some next
    | none => attempt (right.count subject pos) pos
  | difference keep excluded, pos => do
    match ← attempt (keep.count subject pos) pos with
    | some next =>
      match ← peek (attempt (excluded.count subject pos) pos) with
      | some other => return if next ≤ other then none else some next
      | none => return some next
    | none => return none
  | optional rule, pos => do
    return some ((← attempt (rule.count subject pos) pos).getD pos)
  | many rule, pos => do
    return some (← iterate (fun pos => attempt (rule.count subject pos) pos) subject.stop pos)
  | many1 rule, pos => do
    match ← attempt (rule.count subject pos) pos with
    | some next =>
      if next = pos then return some pos
      return some (← iterate (fun pos => attempt (rule.count subject pos) pos) subject.stop next)
    | none => return none
  | action rule a, pos => record (attempt (rule.count subject pos) pos) a pos
  | effect rule e, pos => do
    match ← attempt (rule.count subject pos) pos with
    | some next =>
      perform subject e pos next
      return some next
    | none => return none
  | empty, pos => pure (some pos)
  | nothing, _ => pure none
  | literal bytes, pos =>
    pure (if subject.holds bytes pos then some (pos + bytes.length) else none)
  | set s, pos => pure (if (subject.at? pos).any s.contains then some (pos + 1) else none)
  | endOfInput, pos => pure (if pos = subject.stop then some pos else none)
  | skipTo terminators, pos => pure (subject.after? terminators pos)

/-- A result of the plain matcher with the count of lookaheads as it is. -/
def Peeking.carry {β : Type} (depth : Nat) :
    EStateM.Result Stop (Matching σ α) β → EStateM.Result Stop (Peeking σ α) β
  | .ok result s => .ok result ⟨s, depth⟩
  | .error stop s => .error stop ⟨s, depth⟩

/-- A computation that counts does what the plain one does that is told whether the count is
positive, and keeps the count. -/
def Counts (counting : PeekM σ α β) (plain : Bool → MatchM σ α β) : Prop :=
  ∀ s depth, counting ⟨s, depth⟩ = Peeking.carry depth (plain (0 < depth) s)

namespace Counts

variable {γ : Type} {x : PeekM σ α (Option Nat)} {y : Bool → MatchM σ α (Option Nat)}

theorem pure (result : β) : Counts (σ := σ) (α := α) (pure result) fun _ => pure result :=
  fun _ _ => rfl

theorem congr {x : PeekM σ α β} {y z : Bool → MatchM σ α β} (counts : Counts x y)
    (same : ∀ silent, y silent = z silent) : Counts x z := funext same ▸ counts

theorem bind {x : PeekM σ α β} {y : Bool → MatchM σ α β} {f : β → PeekM σ α γ}
    {g : β → Bool → MatchM σ α γ} (first : Counts x y)
    (rest : ∀ result, Counts (f result) (g result)) :
    Counts (x >>= f) fun silent => y silent >>= fun result => g result silent := by
  intro s depth
  dsimp only
  rw [bind_apply, bind_apply]
  simp only [first s depth]
  rcases y (0 < depth) s with ⟨result, s₁⟩ | ⟨stop, s₁⟩
  · exact rest result s₁ depth
  · rfl

theorem attempt (body : Counts x y) (pos : Nat) :
    Counts (Peeking.attempt x pos) fun silent => Matching.attempt (y silent) pos := by
  intro s depth
  unfold Peeking.attempt Matching.attempt
  simp only [body s depth]
  rcases y (0 < depth) s with ⟨_ | next, s₁⟩ | ⟨stop, s₁⟩ <;> rfl

theorem iterate {x : Nat → PeekM σ α (Option Nat)} {y : Bool → Nat → MatchM σ α (Option Nat)}
    (body : ∀ pos, Counts (x pos) fun silent => y silent pos) (limit pos : Nat) :
    Counts (Peeking.iterate x limit pos) fun silent => Matching.iterate (y silent) limit pos := by
  intro s depth
  dsimp only
  rw [Peeking.iterate, Matching.iterate, body pos s depth]
  dsimp only
  rcases y (0 < depth) pos s with ⟨_ | next, s₁⟩ | ⟨stop, s₁⟩
  · rfl
  · dsimp only [Peeking.carry]
    split
    · exact iterate body limit next s₁ depth
    · rfl
  · rfl
termination_by limit - pos

theorem peek {x : PeekM σ α β} {y : Bool → MatchM σ α β} (body : Counts x y) :
    Counts (Peeking.peek x) fun _ => y true := by
  intro s depth
  unfold Peeking.peek
  simp only [body s (depth + 1), Nat.zero_lt_succ, decide_true]
  cases y true s <;> rfl

theorem record (body : Counts x y) (action : α) (pos : Nat) :
    Counts (Peeking.record x action pos) fun silent =>
      if silent then y true else Matching.record (y false) action pos := by
  intro s depth
  unfold Peeking.record
  by_cases peeking : 0 < depth
  · simp only [body s depth, peeking, decide_true, if_true]
  · obtain rfl : depth = 0 := by omega
    simp only [Nat.lt_irrefl, if_false, body _ 0, decide_false, Bool.false_eq_true,
      Matching.record]
    rcases y false ⟨s.events.push .placeholder, s.diagnostics⟩ with
      ⟨_ | next, s₁⟩ | ⟨stop, s₁⟩ <;> rfl

theorem perform (subject : Subject σ) (e : Effect) (start stop : Nat) :
    Counts (α := α) (Peeking.perform subject e start stop) fun silent =>
      if silent then Pure.pure () else Matching.perform subject e start stop := by
  intro s depth
  unfold Peeking.perform
  by_cases peeking : 0 < depth
  · simp only [peeking, decide_true, if_true]
    rfl
  · simp only [peeking, decide_false, Bool.false_eq_true, if_false]
    cases Matching.perform subject e start stop s <;> rfl

end Counts

/-- The matcher that counts its lookaheads runs as the plain one. -/
theorem Rule.counts (subject : Subject σ) (rule : Rule α) (pos : Nat) :
    Counts (rule.count subject pos) fun silent => rule.step subject silent pos := by
  induction rule generalizing pos with
  | seq a b iha ihb =>
    refine ((iha pos).attempt pos).bind fun
      | some next => (ihb next).attempt next
      | none => .pure none
  | choice a b iha ihb =>
    refine ((iha pos).attempt pos).bind fun
      | some next => .pure (some next)
      | none => (ihb pos).attempt pos
  | difference a b iha ihb =>
    refine ((iha pos).attempt pos).bind fun
      | some next => ((ihb pos).attempt pos).peek.bind fun
        | some other => .pure _
        | none => .pure _
      | none => .pure none
  | optional a ih => exact ((ih pos).attempt pos).bind fun m => .pure _
  | many a ih =>
    exact (Counts.iterate (fun pos => (ih pos).attempt pos) _ pos).bind fun _ => .pure _
  | many1 a ih =>
    refine ((ih pos).attempt pos).bind fun
      | some next => ?_
      | none => .pure none
    by_cases same : next = pos
    · simp only [if_pos same]
      exact .pure _
    · simp only [if_neg same]
      exact (Counts.iterate (fun pos => (ih pos).attempt pos) _ next).bind fun _ => .pure _
  | action a act ih =>
    refine (((ih pos).attempt pos).record act pos).congr fun silent => ?_
    cases silent <;> rfl
  | effect a e ih =>
    have rest : ∀ m, Counts (σ := σ) (α := α)
        (match m with
          | some next => do Peeking.perform subject e pos next; return some next
          | none => return none)
        fun silent => match m with
          | some next =>
            (if silent then pure () else Matching.perform subject e pos next) >>= fun _ =>
              pure (some next)
          | none => return none
      | some next => (Counts.perform subject e pos next).bind fun _ => .pure (some next)
      | none => .pure none
    refine (((ih pos).attempt pos).bind rest).congr fun silent => ?_
    cases silent with
    | false => rfl
    | true =>
      funext s
      rw [bind_apply]
      change _ = Matching.attempt (a.step subject true pos) pos s
      rcases Matching.attempt (a.step subject true pos) pos s with
        ⟨_ | next, s₁⟩ | ⟨stop, s₁⟩ <;> rfl
  | empty | nothing | literal | set | endOfInput | skipTo => exact .pure _

/-- Matches a rule as one transaction, with the lookaheads counted in the state. -/
def Rule.runCounting (subject : Subject σ) (rule : Rule α) (pos : Nat) : PeekM σ α (Option Nat) :=
  Peeking.attempt (rule.count subject pos) pos

theorem Rule.runCounting_eq (subject : Subject σ) (rule : Rule α) (pos : Nat) (s : Matching σ α)
    (depth : Nat) : rule.runCounting subject pos ⟨s, depth⟩ =
      Peeking.carry depth (rule.run subject (0 < depth) pos s) :=
  (rule.counts subject pos).attempt pos s depth

/-- A rule that is run in a lookahead returns at every position and in every state, with a position
that the rule without its notes gives too, and leaves the state and the number of lookaheads as they
were. -/
theorem run_in_lookahead (source : Source) (stop : Nat) (monitor : Monitor σ) (rule : Rule α)
    (pos : Nat) :
    let subject := Subject.upTo source stop monitor
    ∃ m, Recognizes subject.input rule pos m ∧
      (∀ s, rule.run subject true pos s = .ok m s) ∧
      (∀ s depth, rule.runCounting subject pos ⟨s, depth + 1⟩ = .ok m ⟨s, depth + 1⟩) ∧
      (∀ silent s, rule.erase.run subject silent pos s = .ok m s) ∧
      ∀ s depth, rule.erase.runCounting subject pos ⟨s, depth⟩ = .ok m ⟨s, depth⟩ := by
  intro subject
  have bounded : subject.Bounded := Subject.upTo_bounded source stop monitor
  obtain ⟨m, recognized⟩ := Recognizes.exists subject.input rule pos
  obtain ⟨noted, plain⟩ := recognized.quiet bounded
  refine ⟨m, recognized, noted.run, ?_, fun silent => (plain silent).run, ?_⟩
  · intro s depth
    rw [Rule.runCounting_eq, decide_eq_true (Nat.zero_lt_succ depth), noted.run]
    rfl
  · intro s depth
    rw [Rule.runCounting_eq, (plain _).run]
    rfl

end Backtrack
