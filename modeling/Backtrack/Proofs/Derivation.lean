import Backtrack.Proofs.Recognition

/-! The committed derivation of a match: the forest of its actions, each over the span that it
matched. A run that matches appends the events of exactly that forest to the journal, in pre-order,
and a run that fails appends none. Reading the journal gives the forest back. -/
namespace Backtrack

variable {σ α : Type}

mutual

/-- An action comes before the events that are recorded inside it. -/
def Tree.events : Tree α → List (Event α)
  | .node action span children =>
    .action action span.start span.stop (eventsOf children).length :: eventsOf children

def Tree.eventsOf : List (Tree α) → List (Event α)
  | [] => []
  | tree :: trees => tree.events ++ eventsOf trees

end

@[simp] theorem Tree.eventsOf_append (trees more : List (Tree α)) :
    eventsOf (trees ++ more) = eventsOf trees ++ eventsOf more := by
  induction trees with
  | nil => rfl
  | cons tree trees ih => simp [eventsOf, ih]

mutual

theorem Tree.placeholder_not_mem : (tree : Tree α) → Event.placeholder ∉ tree.events
  | .node action span children => by
    simpa [events] using Tree.placeholder_not_mem_of children

theorem Tree.placeholder_not_mem_of : (trees : List (Tree α)) → Event.placeholder ∉ eventsOf trees
  | [] => by simp [eventsOf]
  | tree :: trees => by
    simpa [eventsOf] using
      ⟨Tree.placeholder_not_mem tree, Tree.placeholder_not_mem_of trees⟩

end

/-- `rule` matches `pos..next` with this forest of actions. Alternatives and iterations that fail,
and excluded rules, take part in a derivation through what they recognise alone. -/
inductive Derives (source : Source) (stop : Nat) : Rule α → Nat → Nat → List (Tree α) → Prop where
  | leaf {rule pos next} : rule.leaf? (inputUpTo source stop) pos = some (some next) →
      Derives source stop rule pos next []
  | seq {a b pos mid next f g} : Derives source stop a pos mid f →
      Derives source stop b mid next g → Derives source stop (.seq a b) pos next (f ++ g)
  | choiceLeft {a b pos next f} : Derives source stop a pos next f →
      Derives source stop (.choice a b) pos next f
  | choiceRight {a b pos next f} : Recognizes (inputUpTo source stop) a pos none →
      Derives source stop b pos next f → Derives source stop (.choice a b) pos next f
  | difference {a b pos next f m} : Derives source stop a pos next f →
      Recognizes (inputUpTo source stop) b pos m → m.any (next ≤ ·) = false →
      Derives source stop (.difference a b) pos next f
  | optional {a pos next f} : Derives source stop a pos next f →
      Derives source stop (.optional a) pos next f
  | optionalFail {a pos} : Recognizes (inputUpTo source stop) a pos none →
      Derives source stop (.optional a) pos pos []
  | manyFail {a pos} : Recognizes (inputUpTo source stop) a pos none →
      Derives source stop (.many a) pos pos []
  | manyEmpty {a pos f} : Derives source stop a pos pos f → Derives source stop (.many a) pos pos f
  | manyNext {a pos mid next f g} : Derives source stop a pos mid f → mid ≠ pos →
      Derives source stop (.many a) mid next g → Derives source stop (.many a) pos next (f ++ g)
  | many1Empty {a pos f} : Derives source stop a pos pos f →
      Derives source stop (.many1 a) pos pos f
  | many1Next {a pos mid next f g} : Derives source stop a pos mid f → mid ≠ pos →
      Derives source stop (.many a) mid next g → Derives source stop (.many1 a) pos next (f ++ g)
  | action {a act pos next f} {span : Span} : Derives source stop a pos next f →
      span.source = source → span.start = pos → span.stop = next →
      Derives source stop (.action a act) pos next [.node act span f]
  | effect {a e pos next f} : Derives source stop a pos next f →
      Derives source stop (.effect a e) pos next f

section Derivations

variable {source : Source} {stop : Nat} {rule : Rule α} {pos next : Nat} {f : List (Tree α)}

theorem Derives.recognizes (h : Derives source stop rule pos next f) :
    Recognizes (inputUpTo source stop) rule pos (some next) := by
  induction h with
  | leaf found => exact .leaf found
  | seq _ _ ih₁ ih₂ => exact .seq ih₁ ih₂
  | choiceLeft _ ih => exact .choiceLeft ih
  | choiceRight failed _ ih => exact .choiceRight failed ih
  | difference _ excluded short ih =>
    have whole := Recognizes.difference ih excluded
    simpa [short] using whole
  | optional _ ih => exact .optional ih
  | optionalFail failed => exact .optional failed
  | manyFail failed => exact .manyEnd failed (.inl rfl)
  | manyEmpty _ ih => exact .manyEnd ih (.inr rfl)
  | manyNext _ apart _ ih₁ ih₂ => exact .manyNext ih₁ apart ih₂
  | many1Empty _ ih => exact .many1End ih (.inr rfl)
  | many1Next _ apart _ ih₁ ih₂ => exact .many1Next ih₁ apart ih₂
  | action _ _ _ _ ih => exact .action ih
  | effect _ ih => exact .effect ih

theorem Derives.same_end {next' : Nat} {f' : List (Tree α)}
    (h : Derives source stop rule pos next f) (h' : Derives source stop rule pos next' f') :
    next' = next :=
  Option.some.inj (h'.recognizes.unique h.recognizes)

theorem Derives.not_fails (h : Derives source stop rule pos next f) :
    ¬ Recognizes (inputUpTo source stop) rule pos none :=
  fun failed => nomatch h.recognizes.unique failed

/-- A match has one derivation. -/
theorem Derives.unique {next' : Nat} {f' : List (Tree α)} (h : Derives source stop rule pos next f)
    (h' : Derives source stop rule pos next' f') : f' = f := by
  induction h generalizing next' f' with
  | leaf found =>
    cases h' with
    | leaf => rfl
    | _ => simp [Rule.leaf?] at found
  | seq first _ ih₁ ih₂ =>
    cases h' with
    | leaf found => simp [Rule.leaf?] at found
    | seq first' second' =>
      cases first.same_end first'
      rw [ih₁ first', ih₂ second']
  | choiceLeft left ih =>
    cases h' with
    | leaf found => simp [Rule.leaf?] at found
    | choiceLeft left' => exact ih left'
    | choiceRight failed => exact absurd failed left.not_fails
  | choiceRight failed _ ih =>
    cases h' with
    | leaf found => simp [Rule.leaf?] at found
    | choiceLeft left' => exact absurd failed left'.not_fails
    | choiceRight _ right' => exact ih right'
  | difference _ _ _ ih =>
    cases h' with
    | leaf found => simp [Rule.leaf?] at found
    | difference keep' => exact ih keep'
  | optional part ih =>
    cases h' with
    | leaf found => simp [Rule.leaf?] at found
    | optional part' => exact ih part'
    | optionalFail failed => exact absurd failed part.not_fails
  | optionalFail failed =>
    cases h' with
    | leaf found => simp [Rule.leaf?] at found
    | optional part' => exact absurd failed part'.not_fails
    | optionalFail => rfl
  | manyFail failed =>
    cases h' with
    | leaf found => simp [Rule.leaf?] at found
    | manyFail => rfl
    | manyEmpty part' | manyNext part' => exact absurd failed part'.not_fails
  | manyEmpty part ih =>
    cases h' with
    | leaf found => simp [Rule.leaf?] at found
    | manyFail failed => exact absurd failed part.not_fails
    | manyEmpty part' => exact ih part'
    | manyNext part' apart => exact absurd (part.same_end part') apart
  | manyNext part apart _ ih₁ ih₂ =>
    cases h' with
    | leaf found => simp [Rule.leaf?] at found
    | manyFail failed => exact absurd failed part.not_fails
    | manyEmpty part' => exact absurd (part'.same_end part) apart
    | manyNext part' _ rest' =>
      cases part.same_end part'
      rw [ih₁ part', ih₂ rest']
  | many1Empty part ih =>
    cases h' with
    | leaf found => simp [Rule.leaf?] at found
    | many1Empty part' => exact ih part'
    | many1Next part' apart => exact absurd (part.same_end part') apart
  | many1Next part apart _ ih₁ ih₂ =>
    cases h' with
    | leaf found => simp [Rule.leaf?] at found
    | many1Empty part' => exact absurd (part'.same_end part) apart
    | many1Next part' _ rest' =>
      cases part.same_end part'
      rw [ih₁ part', ih₂ rest']
  | @action _ _ _ _ _ span part inSource atStart atStop ih =>
    cases h' with
    | leaf found => simp [Rule.leaf?] at found
    | @action _ _ _ _ _ span' part' inSource' atStart' atStop' =>
      have same : span' = span := by
        cases span
        cases span'
        cases part.same_end part'
        simp_all
      rw [same, ih part']
  | effect _ ih =>
    cases h' with
    | leaf found => simp [Rule.leaf?] at found
    | effect part' => exact ih part'

theorem inputUpTo_length_le (source : Source) (stop : Nat) :
    (inputUpTo source stop).length ≤ source.size := by
  simp only [inputUpTo, Array.length_toList, Array.size_extract, Nat.sub_zero]
  exact Nat.min_le_right ..

/-- What is recognised has a derivation. -/
theorem Recognizes.derives (h : Recognizes (inputUpTo source stop) rule pos (some next))
    (inside : pos ≤ (inputUpTo source stop).length) :
    ∃ f, Derives source stop rule pos next f := by
  have onward {a : Rule α} {pos next : Nat}
      (first : Recognizes (inputUpTo source stop) a pos (some next))
      (inside : pos ≤ (inputUpTo source stop).length) := first.advances inside
  generalize matched : some next = m at h
  induction h generalizing next with
  | leaf found => subst matched; exact ⟨[], .leaf found⟩
  | seqFail | differenceFail => cases matched
  | seq first _ ih₁ ih₂ =>
    obtain ⟨f, first'⟩ := ih₁ inside rfl
    obtain ⟨g, second⟩ := ih₂ (onward first inside).2 matched
    exact ⟨f ++ g, .seq first' second⟩
  | choiceLeft _ ih =>
    obtain ⟨f, left⟩ := ih inside matched
    exact ⟨f, .choiceLeft left⟩
  | choiceRight failed _ _ ih =>
    obtain ⟨f, right⟩ := ih inside matched
    exact ⟨f, .choiceRight failed right⟩
  | @difference _ _ _ after m _ excluded ih _ =>
    by_cases far : m.any (after ≤ ·) = true
    · simp [far] at matched
    · simp only [far, Bool.false_eq_true, if_false, Option.some.injEq] at matched
      subst matched
      obtain ⟨f, keep⟩ := ih inside rfl
      exact ⟨f, .difference keep excluded (by simpa using far)⟩
  | @optional _ _ m part ih =>
    cases matched
    cases m with
    | none => exact ⟨[], .optionalFail part⟩
    | some next =>
      obtain ⟨f, part'⟩ := ih inside rfl
      exact ⟨f, .optional part'⟩
  | manyEnd part last ih =>
    cases matched
    rcases last with rfl | rfl
    · exact ⟨[], .manyFail part⟩
    · obtain ⟨f, part'⟩ := ih inside rfl
      exact ⟨f, .manyEmpty part'⟩
  | manyNext first apart _ ih₁ ih₂ =>
    obtain ⟨f, first'⟩ := ih₁ inside rfl
    obtain ⟨g, rest⟩ := ih₂ (onward first inside).2 matched
    exact ⟨f ++ g, .manyNext first' apart rest⟩
  | many1End _ last ih =>
    subst matched
    obtain ⟨f, part⟩ := ih inside rfl
    rcases last with last | last <;> cases last
    exact ⟨f, .many1Empty part⟩
  | many1Next first apart _ ih₁ ih₂ =>
    obtain ⟨f, first'⟩ := ih₁ inside rfl
    obtain ⟨g, rest⟩ := ih₂ (onward first inside).2 matched
    exact ⟨f ++ g, .many1Next first' apart rest⟩
  | @action _ act pos _ part ih =>
    subst matched
    obtain ⟨f, part'⟩ := ih inside rfl
    have moved := onward part inside
    let span : Span :=
      ⟨source, pos, next, moved.1, Nat.le_trans moved.2 (inputUpTo_length_le source stop)⟩
    exact ⟨[.node act span f], .action part' rfl rfl rfl⟩
  | effect _ ih =>
    obtain ⟨f, part⟩ := ih inside matched
    exact ⟨f, .effect part⟩
end Derivations

/-- The trees lie one after another in `start..stop`, each with its children inside its own span. -/
inductive Nests (source : Source) : Nat → List (Tree α) → Nat → Prop where
  | nil {start stop} : start ≤ stop → Nests source start [] stop
  | cons {start stop action children trees} {span : Span} : start ≤ span.start →
      span.source = source → Nests source span.start children span.stop →
      Nests source span.stop trees stop →
      Nests source start (.node action span children :: trees) stop

section Nesting

variable {source : Source} {start mid stop : Nat} {f g : List (Tree α)}

theorem Nests.widen (h : Nests source mid f stop) (before : start ≤ mid) :
    Nests source start f stop := by
  cases h with
  | nil le => exact .nil (Nat.le_trans before le)
  | cons le inSource children rest => exact .cons (Nat.le_trans before le) inSource children rest

theorem Nests.append (first : Nests source start f mid) (second : Nests source mid g stop) :
    Nests source start (f ++ g) stop := by
  induction first with
  | nil le => exact second.widen le
  | cons le inSource children _ _ ih => exact .cons le inSource children (ih second)

theorem Span.between_self (span : Span) :
    Span.between span.source span.start span.stop = .ok span := by
  obtain ⟨source, start, stop, ordered, inside⟩ := span
  simp only [between, if_pos ordered, clamp, Nat.min_eq_left inside, Nat.min_eq_left ordered]

theorem Journal.forest_nil (source : Source) : forest source ([] : List (Event α)) = .ok [] := by
  rw [forest]
  rfl

theorem Journal.forest_action (span : Span) (action : α) (nested : Nat) (rest : List (Event α)) :
    forest span.source (.action action span.start span.stop nested :: rest) = do
      let children ← forest span.source (rest.take nested)
      return .node action span children :: (← forest span.source (rest.drop nested)) := by
  have first : next? span.source (.action action span.start span.stop nested :: rest) =
      .ok (some (⟨action, span, rest.take nested⟩, rest.drop nested)) := by
    simp only [next?, Span.between_self]
    rfl
  rw [forest]
  split <;> simp_all

/-- Reading the events of trees gives the trees. -/
theorem Nests.forest_events (h : Nests source start f stop) :
    Journal.forest source (Tree.eventsOf f) = .ok f := by
  induction h with
  | nil => exact Journal.forest_nil source
  | @cons _ _ action children trees span _ inSource _ _ ih₁ ih₂ =>
    subst inSource
    rw [Tree.eventsOf, Tree.events, List.cons_append, Journal.forest_action,
      List.take_left, List.drop_left, ih₁, ih₂]
    rfl

theorem Derives.nests {rule : Rule α} {pos next : Nat} (h : Derives source stop rule pos next f)
    (inside : pos ≤ (inputUpTo source stop).length) : Nests source pos f next := by
  have onward {a : Rule α} {pos next : Nat} {g : List (Tree α)}
      (first : Derives source stop a pos next g) (inside : pos ≤ (inputUpTo source stop).length) :
      pos ≤ next ∧ next ≤ (inputUpTo source stop).length :=
    first.recognizes.advances inside
  induction h with
  | leaf found => exact .nil (Rule.leaf?_advances found inside).1
  | seq first _ ih₁ ih₂ | manyNext first _ _ ih₁ ih₂ | many1Next first _ _ ih₁ ih₂ =>
    exact (ih₁ inside).append (ih₂ (onward first inside).2)
  | choiceLeft _ ih | choiceRight _ _ ih | difference _ _ _ ih | optional _ ih | manyEmpty _ ih
  | many1Empty _ ih | effect _ ih => exact ih inside
  | optionalFail | manyFail => exact .nil (Nat.le_refl _)
  | action part inSource atStart atStop ih =>
    subst atStart atStop
    exact .cons (Nat.le_refl _) inSource (ih inside) (.nil (Nat.le_refl _))

end Nesting

/-- What a stage has done to a journal that held `before`: a match has appended the events of its
derivation, and a failure leaves nothing behind once it is taken back. -/
def Journaled (source : Source) (stop : Nat) (stage : Stage) (rule : Rule α) (pos : Nat)
    (before : List (Event α)) : Verdict σ α → Prop
  | .ok (some next) s =>
    ∃ f, Derives source stop rule pos next f ∧ s.events.toList = before ++ Tree.eventsOf f
  | .ok none s =>
    match stage with
    | .body => before <+: s.events.toList
    | .attempt => s.events.toList = before
  | .error _ _ => True

section Journals

variable {source : Source} {stop : Nat} {stage : Stage} {rule part : Rule α} {pos mid : Nat}
  {before middle : List (Event α)} {r : Verdict σ α}

/-- What the last part of a rule does to the journal, read as what the rule does to it. -/
theorem Journaled.onto {f : List (Tree α)} (grown : middle = before ++ Tree.eventsOf f)
    (h : Journaled source stop stage part mid middle r)
    (whole : ∀ next g, r.position? = some next → Derives source stop part mid next g →
      Derives source stop rule pos next (f ++ g)) :
    Journaled source stop .body rule pos before r := by
  have kept : before <+: middle := ⟨_, grown.symm⟩
  rcases r with ⟨_ | next, s⟩ | ⟨error, s⟩
  · cases stage with
    | body => exact kept.trans h
    | attempt =>
      rw [← h] at kept
      exact kept
  · obtain ⟨g, derives, appended⟩ := h
    refine ⟨f ++ g, whole next g rfl derives, ?_⟩
    rw [appended, grown, Tree.eventsOf_append, List.append_assoc]
  · trivial

theorem Journaled.as (h : Journaled source stop stage part pos before r)
    (whole : ∀ next g, r.position? = some next → Derives source stop part pos next g →
      Derives source stop rule pos next g) :
    Journaled source stop .body rule pos before r :=
  h.onto (f := []) (by simp [Tree.eventsOf]) whole

theorem Journaled.close {s : Matching σ α}
    (h : Journaled source stop .body rule pos s.events.toList r) :
    Journaled source stop .attempt rule pos s.events.toList (s.close pos r) := by
  rcases r with ⟨_ | next, s₁⟩ | ⟨error, s₁⟩
  · obtain ⟨residue, held⟩ : s.events.toList <+: s₁.events.toList := h
    have cut : (s₁.events.shrink s.events.size).toList = s.events.toList := by
      rw [Array.shrink_eq_take, Array.toList_extract, ← held]
      simp [List.extract_eq_take_drop]
    exact cut
  · exact h
  · trivial

/-- A failure appends the events of no tree. -/
theorem Journaled.unchanged {s : Matching σ α}
    (h : Journaled source stop .attempt rule pos before (.ok none s)) :
    s.events.toList = before ++ Tree.eventsOf [] := by
  have same : s.events.toList = before := h
  simp [same, Tree.eventsOf]

/-- A reserved place that is filled in comes before what its action has recorded inside. -/
theorem Matching.events_fill {s s₁ : Matching σ α} {f : List (Tree α)}
    (grown : s₁.events.toList = (s.events.push .placeholder).toList ++ Tree.eventsOf f)
    (action : α) (span : Span) :
    (s₁.fill s.events.size action span.start span.stop).events.toList =
      s.events.toList ++ Tree.eventsOf [.node action span f] := by
  have size : s₁.events.size = s.events.size + 1 + (Tree.eventsOf f).length := by
    rw [← Array.length_toList, grown, List.length_append, Array.length_toList, Array.size_push]
  have nested : s₁.events.size - s.events.size - 1 = (Tree.eventsOf f).length := by omega
  simp only [fill, nested, Array.toList_setIfInBounds, grown, Array.toList_push]
  simp [Tree.eventsOf, Tree.events]

end Journals

theorem Evaluates.journaled {subject : Subject σ} (bounded : subject.Bounded) {stage : Stage}
    {rule : Rule α} {pos : Nat} {s : Matching σ α} {t : List (Performance σ)} {r : Verdict σ α}
    (h : Evaluates subject stage rule false pos s t r) (inside : pos ≤ subject.stop) :
    Journaled subject.source subject.stop stage rule pos s.events.toList r := by
  generalize loud : false = silent at h
  induction h with
  | @leaf _ _ _ _ m found =>
    cases m with
    | none => exact List.prefix_refl _
    | some next => exact ⟨[], .leaf found, by simp [Tree.eventsOf]⟩
  | seqEnd _ ends ih | differenceEnd _ ends ih =>
    exact (ih inside loud).as fun next _ found => by simp [ends] at found
  | seqNext first _ ih₁ ih₂ =>
    obtain ⟨f, left, grown⟩ := ih₁ inside loud
    exact (ih₂ (first.onward bounded inside).2 loud).onto grown fun _ _ _ right => .seq left right
  | choiceEnd _ _ ih => exact (ih inside loud).as fun _ _ _ left => .choiceLeft left
  | choiceNext first _ ih₁ ih₂ =>
    have rest := ih₂ inside loud
    exact rest.onto (Journaled.unchanged (ih₁ inside loud)) fun _ _ _ right =>
      .choiceRight first.recognizes right
  | differenceStop | optionalStop | manyStop => trivial
  | @differenceNext _ _ _ _ _ _ next _ _ m _ _ excluded ih₁ _ =>
    obtain ⟨f, keep, grown⟩ := ih₁ inside loud
    obtain ⟨-, _, same⟩ := excluded.silent_unchanged
    cases same
    by_cases far : m.any (next ≤ ·) = true
    · rw [if_pos far]
      exact ⟨_, grown.symm⟩
    · rw [if_neg far]
      exact ⟨f, .difference keep excluded.recognizes (by simpa using far), grown⟩
  | @optionalNext _ _ _ _ _ m _ once ih =>
    cases m with
    | none =>
      have same := Journaled.unchanged (ih inside loud)
      exact ⟨[], .optionalFail once.recognizes, same⟩
    | some next => exact (ih inside loud).as fun _ _ _ part => .optional part
  | manyEnd once last ih =>
    rcases last with rfl | rfl
    · exact ⟨[], .manyFail once.recognizes, Journaled.unchanged (ih inside loud)⟩
    · exact (ih inside loud).as fun _ _ at_pos part => by cases at_pos; exact .manyEmpty part
  | manyNext first apart _ ih₁ ih₂ =>
    obtain ⟨f, part, grown⟩ := ih₁ inside loud
    have onward := (first.onward bounded inside).2
    exact (ih₂ onward loud).onto grown fun _ _ _ rest => .manyNext part apart rest
  | many1End _ last ih =>
    refine (ih inside loud).as fun next _ found part => ?_
    rw [found] at last
    rcases last with last | last <;> cases last
    exact .many1Empty part
  | many1Next first apart _ ih₁ ih₂ =>
    obtain ⟨f, part, grown⟩ := ih₁ inside loud
    have onward := (first.onward bounded inside).2
    exact (ih₂ onward loud).onto grown fun _ _ _ rest => .many1Next part apart rest
  | actionSilent | effectSilent => contradiction
  | @actionEnd _ _ _ s _ r _ ends ih =>
    rcases r with ⟨_ | next, s₁⟩ | ⟨error, s₁⟩
    · have held : s₁.events.toList = (s.events.push .placeholder).toList := ih inside loud
      exact ⟨[.placeholder], by simp [held]⟩
    · cases ends
    · trivial
  | @actionNext _ act pos s _ next _ part ih =>
    obtain ⟨f, derives, grown⟩ := ih inside loud
    have moved := part.onward bounded inside
    let span : Span := ⟨subject.source, pos, next, moved.1, Nat.le_trans moved.2 bounded⟩
    exact ⟨[.node act span f], .action derives rfl rfl rfl, Matching.events_fill grown act span⟩
  | effectEnd _ _ ih => exact (ih inside loud).as fun _ _ _ part => .effect part
  | effectStop => trivial
  | effectNext _ _ ih =>
    obtain ⟨f, derives, grown⟩ := ih inside loud
    exact ⟨f, .effect derives, grown⟩
  | close _ ih => exact (ih inside loud).close

/-- A run that matches appends the events of its one derivation, in which spans nest and follow one
another, and reading them back gives that derivation. A run that fails leaves the journal as it
was. -/
theorem run_journals_derivation (source : Source) (stop : Nat) (monitor : Monitor σ)
    (rule : Rule α) (pos : Nat) (s : Matching σ α) (inside : pos ≤ min stop source.size) :
    let subject := Subject.upTo source stop monitor
    (∀ next s', rule.run subject false pos s = .ok (some next) s' →
      ∃ forest, Derives source (min stop source.size) rule pos next forest ∧
        (∀ other, Derives source (min stop source.size) rule pos next other → other = forest) ∧
        s'.events.toList = s.events.toList ++ Tree.eventsOf forest ∧
        Event.placeholder ∉ Tree.eventsOf forest ∧
        Nests source pos forest next ∧
        Journal.forest source (Tree.eventsOf forest) = .ok forest) ∧
    ∀ s', rule.run subject false pos s = .ok none s' → s'.events = s.events := by
  intro subject
  have bounded : subject.Bounded := Subject.upTo_bounded source stop monitor
  have within : pos ≤ subject.input.length := bounded.length_input ▸ inside
  obtain ⟨t, evaluation⟩ := rule.evaluates bounded false pos s inside
  have journaled := evaluation.journaled bounded inside
  constructor
  · intro next s' matched
    rw [matched] at journaled
    obtain ⟨forest, derives, appended⟩ := journaled
    have nests := derives.nests within
    exact ⟨forest, derives, fun _ other => derives.unique other, appended,
      Tree.placeholder_not_mem_of forest, nests, nests.forest_events⟩
  · intro s' failed
    rw [failed] at journaled
    exact Array.toList_inj.mp journaled

/-- The first alternative matches an action before it fails, and nothing of that is left. -/
theorem run_journals_choice :
    let rule : Rule Nat := (Rule.literal [0x61]).action 1 ++ .literal [0x63] |||
      ((Rule.literal [0x61]).action 2 ++ .literal [0x62]).action 3
    let subject := Subject.upTo #[0x61, 0x62, 0x63] 2 (Subject.ofInput []).monitor
    let s : Matching Unit Nat := { diagnostics := { world := () } }
    0 ≤ min 2 (#[0x61, 0x62, 0x63] : Source).size ∧
    ∃ s' forest, rule.run subject false 0 s = .ok (some 2) s' ∧
      Derives #[0x61, 0x62, 0x63] 2 rule 0 2 forest ∧
      Tree.eventsOf forest = [.action 3 0 2 1, .action 2 0 1 0] := by
  intro rule subject s
  have returned : ∃ s', rule.run subject false 0 s = .ok (some 2) s' ∧
      s'.events.toList = [.action 3 0 2 1, .action 2 0 1 0] := ⟨_, rfl, rfl⟩
  obtain ⟨s', run, events⟩ := returned
  obtain ⟨forest, derives, -, appended, -⟩ :=
    (run_journals_derivation #[0x61, 0x62, 0x63] 2 (Subject.ofInput []).monitor rule 0 s
      (by decide)).1 2 s' run
  exact ⟨by decide, s', forest, run, derives, by simpa [events, s] using appended.symm⟩

end Backtrack
