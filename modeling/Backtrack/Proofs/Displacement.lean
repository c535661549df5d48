import Backtrack.Proofs.Derivation

/-! Matching looks ahead only. What stands before a position neither helps nor hinders a match
there, so a derivation over an input is one over every longer input that ends in it, with its spans
moved along. -/
namespace Backtrack

variable {α : Type}

section Recognition

variable {input : Bytes} {rule : Rule α} {pos : Nat} {m : Option Nat}

/-- A rule without parts matches behind `before` what it matches without it. -/
theorem Rule.leaf?_behind (before : Bytes) (rule : Rule α) (input : Bytes) (pos : Nat) :
    rule.leaf? (before ++ input) (before.length + pos) =
      (rule.leaf? input pos).map (·.map (before.length + ·)) := by
  have ahead : (before ++ input).drop (before.length + pos) = input.drop pos := by
    rw [← List.drop_drop, List.drop_left]
  cases rule <;> simp only [leaf?, ahead, Option.map_some, Option.map_none]
  case literal bytes => split <;> simp [Nat.add_assoc]
  case set s =>
    rw [List.getElem?_append_right (Nat.le_add_right ..), Nat.add_sub_cancel_left]
    split <;> simp [Nat.add_assoc]
  case endOfInput => simp only [List.length_append, Nat.add_left_cancel_iff]; split <;> simp
  case skipTo terminators =>
    cases (input.drop pos).findIdx? terminators.contains <;> simp [Nat.add_assoc]

theorem Recognizes.behind (before : Bytes) (h : Recognizes input rule pos m) :
    Recognizes (before ++ input) rule (before.length + pos) (m.map (before.length + ·)) := by
  induction h with
  | leaf found => exact .leaf (by rw [Rule.leaf?_behind, found]; rfl)
  | seqFail _ ih => exact .seqFail ih
  | seq _ _ ih₁ ih₂ => exact .seq ih₁ ih₂
  | choiceLeft _ ih => exact .choiceLeft ih
  | choiceRight _ _ ih₁ ih₂ => exact .choiceRight ih₁ ih₂
  | differenceFail _ ih => exact .differenceFail ih
  | @difference _ _ _ next m _ _ ih₁ ih₂ =>
    have whole := Recognizes.difference ih₁ ih₂
    cases m with
    | none => simpa using whole
    | some other =>
      by_cases far : next ≤ other <;> simpa [far] using whole
  | @optional _ _ m _ ih =>
    have whole := Recognizes.optional ih
    cases m <;> exact whole
  | manyEnd _ last ih => exact .manyEnd ih (by rcases last with rfl | rfl <;> simp)
  | manyNext _ apart _ ih₁ ih₂ => exact .manyNext ih₁ (apart ∘ Nat.add_left_cancel) ih₂
  | many1End _ last ih => exact .many1End ih (by rcases last with rfl | rfl <;> simp)
  | many1Next _ apart _ ih₁ ih₂ => exact .many1Next ih₁ (apart ∘ Nat.add_left_cancel) ih₂
  | action _ ih => exact .action ih
  | effect _ ih => exact .effect ih

end Recognition

/-- The span with the same bytes in a source that holds them `offset` further on. -/
def Span.displace (source : Source) (offset : Nat) (span : Span) : Span :=
  .clamp source (offset + span.start) (offset + span.stop)

/-- The tree over a source that holds its bytes `offset` further on. -/
def Tree.displace (source : Source) (offset : Nat) : Tree α → Tree α
  | .node action span children =>
    .node action (span.displace source offset) (children.map (displace source offset))

@[simp] theorem Span.displace_source (source : Source) (offset : Nat) (span : Span) :
    (span.displace source offset).source = source := rfl

theorem Span.displace_start {source : Source} {offset : Nat} {span : Span}
    (inside : offset + span.stop ≤ source.size) :
    (span.displace source offset).start = offset + span.start := by
  have := span.start_le_stop
  simp only [displace, clamp]
  omega

theorem Span.displace_stop {source : Source} {offset : Nat} {span : Span}
    (inside : offset + span.stop ≤ source.size) :
    (span.displace source offset).stop = offset + span.stop := by
  simp only [displace, clamp]
  omega

section Derivations

variable {source source' : Source} {stop stop' : Nat} {before : Bytes} {rule : Rule α}
  {pos next : Nat} {f : List (Tree α)}

theorem Derives.behind (h : Derives source stop rule pos next f)
    (longer : inputUpTo source' stop' = before ++ inputUpTo source stop)
    (inside : pos ≤ (inputUpTo source stop).length) :
    Derives source' stop' rule (before.length + pos) (before.length + next)
      (f.map (Tree.displace source' before.length)) := by
  have fails {a : Rule α} {pos : Nat} (failed : Recognizes (inputUpTo source stop) a pos none) :
      Recognizes (inputUpTo source' stop') a (before.length + pos) none :=
    longer ▸ failed.behind before
  have onward {a : Rule α} {pos next : Nat} {g : List (Tree α)}
      (first : Derives source stop a pos next g)
      (inside : pos ≤ (inputUpTo source stop).length) :
      pos ≤ next ∧ next ≤ (inputUpTo source stop).length :=
    first.recognizes.advances inside
  induction h with
  | leaf found => exact .leaf (by rw [longer, Rule.leaf?_behind, found]; rfl)
  | seq first _ ih₁ ih₂ =>
    rw [List.map_append]
    exact .seq (ih₁ inside) (ih₂ (onward first inside).2)
  | choiceLeft _ ih => exact .choiceLeft (ih inside)
  | choiceRight failed _ ih => exact .choiceRight (fails failed) (ih inside)
  | @difference _ _ _ next _ m _ excluded short ih =>
    refine .difference (ih inside) (longer ▸ excluded.behind before) ?_
    cases m with
    | none => rfl
    | some other => simpa using short
  | optional _ ih => exact .optional (ih inside)
  | optionalFail failed => exact .optionalFail (fails failed)
  | manyFail failed => exact .manyFail (fails failed)
  | manyEmpty _ ih => exact .manyEmpty (ih inside)
  | manyNext first apart _ ih₁ ih₂ =>
    rw [List.map_append]
    exact .manyNext (ih₁ inside) (by omega) (ih₂ (onward first inside).2)
  | many1Empty _ ih => exact .many1Empty (ih inside)
  | many1Next first apart _ ih₁ ih₂ =>
    rw [List.map_append]
    exact .many1Next (ih₁ inside) (by omega) (ih₂ (onward first inside).2)
  | @action _ _ _ next _ span part _ atStart atStop ih =>
    have short := (onward part inside).2
    have held : before.length + span.stop ≤ source'.size := by
      have whole := inputUpTo_length_le source' stop'
      rw [longer, List.length_append] at whole
      omega
    simp only [List.map_cons, List.map_nil, Tree.displace]
    refine .action (ih inside) rfl ?_ ?_
    · rw [Span.displace_start held, atStart]
    · rw [Span.displace_stop held, atStop]
  | effect _ ih => exact .effect (ih inside)

end Derivations

end Backtrack
