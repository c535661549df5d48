import Backtrack.Proofs.Outlook

/-! Every rule keeps its outlook: what can be told from a rule about errors and defects holds of
each of its evaluations. The errors are those that its effects send, whether or not the attempt
around them fails later; the defects are those of the derivation that is left in the end. -/
namespace Backtrack

variable {σ α : Type}

/-- The event of an action that is a defect. -/
def Event.marks (isDefect : α → Bool) : Event α → Bool
  | .placeholder => false
  | .action act _ _ _ => isDefect act

/-- How many actions of the trees are defects, at any depth. -/
def Tree.defects (isDefect : α → Bool) (trees : List (Tree α)) : Nat :=
  (eventsOf trees).countP (Event.marks isDefect)

section Trees

variable {isDefect : α → Bool}

@[simp] theorem Tree.defects_nil : defects isDefect [] = 0 := rfl

@[simp] theorem Tree.defects_append (trees more : List (Tree α)) :
    defects isDefect (trees ++ more) = defects isDefect trees + defects isDefect more := by
  simp [defects]

theorem Tree.defects_node (action : α) (span : Span) (children : List (Tree α)) :
    defects isDefect [.node action span children] =
      defects isDefect children + if isDefect action then 1 else 0 := by
  simp only [defects, eventsOf, events, List.append_nil, List.countP_cons, Event.marks]
  rfl

mutual

theorem Tree.any_eq_countP : (tree : Tree α) →
    tree.any isDefect = decide (0 < tree.events.countP (Event.marks isDefect))
  | .node action span children => by
    cases here : isDefect action <;>
      simp [any, events, Event.marks, here, Tree.anyOf_eq_countP children]

theorem Tree.anyOf_eq_countP : (trees : List (Tree α)) →
    anyOf isDefect trees = decide (0 < (eventsOf trees).countP (Event.marks isDefect))
  | [] => rfl
  | tree :: trees => by
    rw [anyOf, Tree.any_eq_countP tree, Tree.anyOf_eq_countP trees, eventsOf, List.countP_append]
    grind

end

/-- Trees are valid as long as none of them has a defect. -/
theorem Tree.all_valid_iff (trees : List (Tree α)) :
    trees.all (fun tree => !tree.any isDefect) = true ↔ defects isDefect trees = 0 := by
  induction trees with
  | nil => simp
  | cons tree trees ih =>
    have split : defects isDefect (tree :: trees) =
        tree.events.countP (Event.marks isDefect) + defects isDefect trees := by
      simp [defects, eventsOf]
    rw [List.all_cons, Bool.and_eq_true_iff, ih, split, Tree.any_eq_countP]
    simp

end Trees

/-- What the rule promises about errors and defects, read off its parts. -/
def Rule.outlook (blanks : CharSet) (isDefect : α → Bool) : Rule α → Outlook
  | empty => { total := true, blank := true }
  | nothing | skipTo _ => {}
  | literal bytes => { opening := (bytes.head?.filter (!blanks.contains ·)).map (.ofBytes [·]) }
  | set s => { opening := if s.disjoint blanks then some s else none, blank := s.within blanks }
  | endOfInput => { blank := true }
  | seq a b => (a.outlook blanks isDefect).seq (b.outlook blanks isDefect)
  | choice a b => (a.outlook blanks isDefect).choice (b.outlook blanks isDefect)
  | difference a _ => (a.outlook blanks isDefect).minus
  | optional a | many a => (a.outlook blanks isDefect).freely
  | many1 a => (a.outlook blanks isDefect).seq (a.outlook blanks isDefect).freely
  | action a act =>
    if isDefect act then (a.outlook blanks isDefect).marked else a.outlook blanks isDefect
  | effect a e =>
    match e with
    | .pop | .sendNow _ => (a.outlook blanks isDefect).sent
    | .popAbandoned => (a.outlook blanks isDefect).claimed
    | _ => a.outlook blanks isDefect

/-- The verdict of an attempt that has performed these effects is as the rule promises. -/
def Verdict.Keeps (subject : Subject σ) (blanks : CharSet) (isDefect : α → Bool) (rule : Rule α)
    (o : Outlook) (pos : Nat) (t : List (Performance σ)) : Verdict σ α → Prop
  | .ok (some next) _ =>
    ∃ f, Derives subject.source subject.stop rule pos next f ∧
      o.Matched (headFrom blanks subject.input pos) (headFrom blanks subject.input next)
        (errorsSent subject t) (Tree.defects isDefect f)
  | .ok none _ => o.Failed (headFrom blanks subject.input pos) (errorsSent subject t)
  | .error _ _ => True

section Keeping

variable {subject : Subject σ} {blanks : CharSet} {isDefect : α → Bool} {rule : Rule α}
  {pos next : Nat}

/-- A match that is silent and clean keeps what a rule without parts promises. -/
theorem Outlook.matched_plain {total blank : Bool} {opening : Option CharSet}
    {head after : Option UInt8} (begins : Allows opening head)
    (still : blank = true → after = head) :
    ({ total, opening, blank } : Outlook).Matched head after 0 0 :=
  ⟨fun _ => rfl, nofun, nofun, nofun, nofun, fun _ same => by cases same; rfl, begins, still⟩

theorem Rule.leaf?_matched (found : rule.leaf? subject.input pos = some (some next)) :
    (rule.outlook blanks isDefect).Matched (headFrom blanks subject.input pos)
      (headFrom blanks subject.input next) 0 0 := by
  cases rule <;> simp only [leaf?, Option.some.injEq, reduceCtorEq] at found
  case empty =>
    subst found
    exact Outlook.matched_plain Outlook.allows_none fun _ => rfl
  case literal bytes =>
    refine Outlook.matched_plain ?_ fun solid => Bool.noConfusion solid
    intro set first
    obtain ⟨b, starts, rfl⟩ := Option.map_eq_some_iff.mp first
    obtain ⟨first, solid⟩ := Option.filter_eq_some_iff.mp starts
    obtain ⟨rest, rfl⟩ := List.head?_eq_some_iff.mp first
    split at found
    next here =>
      obtain ⟨more, split⟩ := here
      exact ⟨b, headFrom_of_drop split.symm (by simpa using solid),
        CharSet.contains_ofBytes_singleton b⟩
    next => contradiction
  case set s =>
    split at found
    next here =>
      obtain ⟨b, here, member⟩ := (Option.any_eq_true _ _).mp here
      cases found
      refine Outlook.matched_plain ?_ ?_
      · intro set first
        split at first
        next distinct =>
          cases first
          have outside := CharSet.not_contains_of_disjoint distinct member
          obtain ⟨bound, rfl⟩ := List.getElem?_eq_some_iff.mp here
          exact ⟨_, headFrom_of_drop (List.drop_eq_getElem_cons bound) (by simpa using outside),
            member⟩
        next => contradiction
      · intro inside
        exact headFrom_succ here (CharSet.contains_of_within inside member)
    next => contradiction
  case endOfInput =>
    split at found
    next =>
      cases found
      exact Outlook.matched_plain Outlook.allows_none fun _ => rfl
    next => contradiction
  case skipTo => exact Outlook.matched_plain Outlook.allows_none fun solid => Bool.noConfusion solid

theorem Rule.leaf?_failed (found : rule.leaf? subject.input pos = some none)
    (head : Option UInt8) : (rule.outlook blanks isDefect).Failed head 0 := by
  have total : (rule.outlook blanks isDefect).total = false := by
    cases rule <;> first | rfl | simp [leaf?] at found
  exact ⟨fun _ => rfl, total, fun noisy => absurd noisy (Nat.lt_irrefl 0)⟩

section Notes

variable {a : Rule α} {head after : Option UInt8} {errors defects : Nat}

/-- An action adds its defect. -/
theorem Rule.action_matched (act : α)
    (h : (a.outlook blanks isDefect).Matched head after errors defects) :
    ((action a act).outlook blanks isDefect).Matched head after errors
      (defects + if isDefect act then 1 else 0) := by
  unfold Rule.outlook
  split
  · exact h.marked
  · exact h

theorem Rule.action_failed (act : α) (h : (a.outlook blanks isDefect).Failed head errors) :
    ((action a act).outlook blanks isDefect).Failed head errors := by
  unfold Rule.outlook
  split <;> exact ⟨h.discreet, h.total, h.opening⟩

/-- An effect adds the errors that it sends. -/
theorem Rule.effect_matched {e : Effect} {more : Nat}
    (h : (a.outlook blanks isDefect).Matched head after errors defects) (sends : e.Sends more) :
    ((effect a e).outlook blanks isDefect).Matched head after (errors + more) defects := by
  cases e
  case pop | sendNow =>
    obtain rfl : more = 1 := sends
    exact h.sent
  case popAbandoned => exact h.claimed more
  all_goals
    obtain rfl : more = 0 := sends
    exact h

theorem Rule.effect_failed (e : Effect) (h : (a.outlook blanks isDefect).Failed head errors) :
    ((effect a e).outlook blanks isDefect).Failed head errors := by
  cases e <;> exact ⟨h.discreet, h.total, h.opening⟩

end Notes

/-- What the last part of a rule keeps, read as what the rule keeps. -/
theorem Verdict.Keeps.onto {part : Rule α} {o whole : Outlook} {mid : Nat}
    {t u : List (Performance σ)} {r : Verdict σ α}
    (h : r.Keeps subject blanks isDefect part o mid u)
    (matched : ∀ next s g, r = .ok (some next) s →
      Derives subject.source subject.stop part mid next g →
      o.Matched (headFrom blanks subject.input mid) (headFrom blanks subject.input next)
        (errorsSent subject u) (Tree.defects isDefect g) →
      ∃ f, Derives subject.source subject.stop rule pos next f ∧
        whole.Matched (headFrom blanks subject.input pos) (headFrom blanks subject.input next)
          (errorsSent subject t) (Tree.defects isDefect f))
    (failed : ∀ s, r = .ok none s → o.Failed (headFrom blanks subject.input mid)
      (errorsSent subject u) →
      whole.Failed (headFrom blanks subject.input pos) (errorsSent subject t)) :
    r.Keeps subject blanks isDefect rule whole pos t := by
  rcases r with ⟨_ | next, s⟩ | ⟨error, s⟩
  · exact failed s rfl h
  · obtain ⟨g, derives, kept⟩ := h
    exact matched next s g rfl derives kept
  · trivial

/-- What the rule promises, every evaluation of it keeps, as long as its effects send what their
kinds tell. The induction is on the evaluation, so a repetition is met one iteration at a time. -/
theorem Evaluates.keeps (blanks : CharSet) (isDefect : α → Bool) (bounded : subject.Bounded)
    {stage : Stage} {s : Matching σ α} {t : List (Performance σ)} {r : Verdict σ α}
    (h : Evaluates subject stage rule false pos s t r) (inside : pos ≤ subject.stop)
    (sends : ∀ p ∈ t, p.effect.Sends (p.errors subject)) :
    r.Keeps subject blanks isDefect rule (rule.outlook blanks isDefect) pos t := by
  generalize loud : false = silent at h
  induction h with
  | @leaf _ _ _ _ m found =>
    cases m with
    | none => exact Rule.leaf?_failed found _
    | some next => exact ⟨[], .leaf found, Rule.leaf?_matched found⟩
  | seqEnd _ ends ih =>
    refine (ih inside sends loud).onto ?_ fun _ _ failed => .seqFirst failed
    rintro next s₁ f rfl
    cases ends
  | seqNext first _ ih₁ ih₂ =>
    obtain ⟨sends₁, sends₂⟩ := List.forall_mem_append.mp sends
    obtain ⟨f, left, matched⟩ := ih₁ inside sends₁ loud
    refine (ih₂ (first.onward bounded inside).2 sends₂ loud).onto ?_ ?_
    · intro next _ g _ right matched'
      refine ⟨f ++ g, .seq left right, ?_⟩
      rw [errorsSent_append, Tree.defects_append]
      exact matched.seq matched'
    · intro _ _ failed
      rw [errorsSent_append]
      exact .seqSecond matched failed
  | choiceEnd _ ends ih =>
    refine (ih inside sends loud).onto ?_ fun s₁ failed => absurd failed (ends s₁)
    exact fun _ _ f _ left matched => ⟨f, .choiceLeft left, matched.choiceLeft⟩
  | choiceNext first _ ih₁ ih₂ =>
    obtain ⟨sends₁, sends₂⟩ := List.forall_mem_append.mp sends
    have failed : Outlook.Failed .. := ih₁ inside sends₁ loud
    refine (ih₂ inside sends₂ loud).onto ?_ ?_
    · intro _ _ f _ right matched
      refine ⟨f, .choiceRight first.recognizes right, ?_⟩
      rw [errorsSent_append]
      exact .choiceRight failed matched
    · intro _ _ failed'
      rw [errorsSent_append]
      exact failed.choice failed'
  | differenceEnd _ ends ih =>
    refine (ih inside sends loud).onto ?_ fun _ _ failed => .minusFirst failed
    rintro next s₁ f rfl
    cases ends
  | differenceStop | optionalStop | manyStop | effectStop => trivial
  | @differenceNext _ _ _ _ _ _ next _ _ m _ _ excluded ih₁ _ =>
    obtain ⟨f, keep, matched⟩ := ih₁ inside (List.forall_mem_append.mp sends).1 loud
    obtain ⟨rfl, -⟩ := excluded.silent_unchanged
    rw [List.append_nil]
    by_cases far : m.any (next ≤ ·) = true
    · rw [if_pos far]
      exact .minusSecond matched
    · rw [if_neg far]
      exact ⟨f, .difference keep excluded.recognizes (by simpa using far), matched.minus⟩
  | @optionalNext _ _ _ _ _ m _ once ih =>
    have kept := ih inside sends loud
    cases m with
    | none => exact ⟨[], .optionalFail once.recognizes, .freelyFailed kept⟩
    | some next =>
      obtain ⟨f, part, matched⟩ := kept
      exact ⟨f, .optional part, matched.freelyOnce⟩
  | manyEnd once last ih =>
    have kept := ih inside sends loud
    rcases last with rfl | rfl
    · exact ⟨[], .manyFail once.recognizes, .freelyFailed kept⟩
    · obtain ⟨f, part, matched⟩ := kept
      exact ⟨f, .manyEmpty part, matched.freelyOnce⟩
  | manyNext first apart _ ih₁ ih₂ =>
    obtain ⟨sends₁, sends₂⟩ := List.forall_mem_append.mp sends
    obtain ⟨f, part, matched⟩ := ih₁ inside sends₁ loud
    refine (ih₂ (first.onward bounded inside).2 sends₂ loud).onto ?_ fun _ _ failed =>
      nomatch failed.total
    intro next _ g _ rest matched'
    refine ⟨f ++ g, .manyNext part apart rest, ?_⟩
    rw [errorsSent_append, Tree.defects_append]
    exact matched.freelyNext matched'
  | many1End _ last ih =>
    refine (ih inside sends loud).onto ?_ fun _ _ failed => .seqFirst failed
    rintro next s₁ f rfl part matched
    rcases last with last | last <;> cases last
    exact ⟨f, .many1Empty part, matched.seq (.freelyNil _ _)⟩
  | many1Next first apart _ ih₁ ih₂ =>
    obtain ⟨sends₁, sends₂⟩ := List.forall_mem_append.mp sends
    obtain ⟨f, part, matched⟩ := ih₁ inside sends₁ loud
    refine (ih₂ (first.onward bounded inside).2 sends₂ loud).onto ?_ fun _ _ failed =>
      nomatch failed.total
    intro next _ g _ rest matched'
    refine ⟨f ++ g, .many1Next part apart rest, ?_⟩
    rw [errorsSent_append, Tree.defects_append]
    exact matched.seq matched'
  | actionSilent | effectSilent => contradiction
  | @actionEnd _ act _ _ _ _ _ ends ih =>
    refine (ih inside sends loud).onto ?_ fun _ _ failed => Rule.action_failed act failed
    rintro next s₁ f rfl
    cases ends
  | @actionNext _ act pos _ _ next _ part ih =>
    obtain ⟨f, derives, matched⟩ := ih inside sends loud
    have moved := part.onward bounded inside
    let span : Span := ⟨subject.source, pos, next, moved.1, Nat.le_trans moved.2 bounded⟩
    refine ⟨[.node act span f], .action derives rfl rfl rfl, ?_⟩
    rw [Tree.defects_node]
    exact Rule.action_matched act matched
  | @effectEnd _ e _ _ _ _ _ ends ih =>
    refine (ih inside sends loud).onto ?_ fun _ _ failed => Rule.effect_failed e failed
    rintro next s₁ f rfl
    cases ends
  | effectNext _ _ ih =>
    obtain ⟨sends₁, sends₂⟩ := List.forall_mem_append.mp sends
    obtain ⟨f, derives, matched⟩ := ih inside sends₁ loud
    refine ⟨f, .effect derives, ?_⟩
    rw [errorsSent_append, errorsSent_cons, errorsSent_nil, Nat.add_zero]
    exact Rule.effect_matched matched (sends₂ _ (List.mem_singleton_self _))
  | @close _ _ _ _ _ r _ ih =>
    have kept := ih inside sends loud
    rcases r with ⟨_ | next, s₁⟩ | ⟨error, s₁⟩ <;> exact kept

end Keeping
end Backtrack
