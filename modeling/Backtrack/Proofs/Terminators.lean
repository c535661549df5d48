import Backtrack.Proofs.Failures
import Backtrack.Proofs.Written

/-! Recoveries that skip through a byte. Where the byte does not occur they are out of reach, so a
rule that sends messages only as it recovers sends none: it matches without a message, or it fails
and nothing has been skipped. -/
namespace Backtrack

variable {σ α : Type}

namespace Rule

/-- The rule matches no input without this byte. -/
def barren (b : UInt8) : Rule α → Bool
  | nothing => true
  | literal bytes => bytes.contains b
  | set s | skipTo s => s.within (.ofBytes [b])
  | seq x y => x.barren b || y.barren b
  | choice x y => x.barren b && y.barren b
  | difference x _ | many1 x | action x _ | effect x _ => x.barren b
  | _ => false

/-- What the rule may send it sends behind a match of this byte. -/
def hushed (b : UInt8) : Rule α → Bool
  | seq x y | choice x y | difference x y => x.hushed b && y.hushed b
  | optional x | many x | many1 x | action x _ => x.hushed b
  | effect x e => x.hushed b && (e.quiet || x.barren b)
  | _ => true

end Rule

section Lacking

variable {input : Bytes} {b : UInt8} {rule : Rule α} {pos next : Nat}

/-- A byte of the class stands in the input, so it is not this one. -/
theorem CharSet.not_within {s : CharSet} {c : UInt8} (lacks : b ∉ input) (here : c ∈ input)
    (member : s.contains c = true) : s.within (.ofBytes [b]) = false := by
  by_contra within
  have same := contains_of_within (by simpa using within) member
  rw [contains_byte] at same
  exact lacks (same ▸ here)

theorem Rule.leaf?_fertile (lacks : b ∉ input) (found : rule.leaf? input pos = some (some next)) :
    rule.barren b = false := by
  cases rule with
  | empty | endOfInput => rfl
  | nothing => simp [leaf?] at found
  | literal bytes =>
    simp only [leaf?, Option.some.injEq] at found
    split at found
    next begins =>
      rw [barren, List.contains_eq_mem, decide_eq_false_iff_not]
      exact fun member => lacks (List.mem_of_mem_drop (begins.subset member))
    next => cases found
  | set s =>
    simp only [leaf?, Option.some.injEq] at found
    split at found
    next begins =>
      obtain ⟨c, here, member⟩ := (Option.any_eq_true _ _).mp begins
      exact CharSet.not_within lacks (List.mem_of_getElem? here) member
    next => cases found
  | skipTo s =>
    simp only [leaf?, Option.some.injEq, Option.map_eq_some_iff] at found
    obtain ⟨i, first, -⟩ := found
    obtain ⟨short, member, -⟩ := List.findIdx?_eq_some_iff_getElem.mp first
    exact CharSet.not_within lacks (List.mem_of_mem_drop (List.getElem_mem short)) member
  | seq | choice | difference | optional | many | many1 | action | effect => simp [leaf?] at found

/-- Where the byte does not occur, a barren rule does not match. -/
theorem Recognizes.fertile (lacks : b ∉ input) (h : Recognizes input rule pos (some next)) :
    rule.barren b = false := by
  generalize reached : some next = m at h
  induction h generalizing next with
  | leaf found =>
    subst reached
    exact Rule.leaf?_fertile lacks found
  | seqFail | differenceFail => cases reached
  | seq _ _ ih₁ ih₂ => simp [Rule.barren, ih₁ rfl, ih₂ reached]
  | choiceLeft _ ih => simp [Rule.barren, ih rfl]
  | choiceRight _ _ _ ih => simp [Rule.barren, ih reached]
  | difference _ _ ih => exact ih rfl
  | optional | manyEnd | manyNext => rfl
  | many1End _ _ ih => exact ih reached
  | many1Next _ _ _ ih => exact ih rfl
  | action _ ih | effect _ ih => exact ih reached

variable {subject : Subject σ} {stage : Stage} {silent : Bool} {s : Matching σ α}
  {t : List (Performance σ)} {r : Verdict σ α}

/-- Where the byte does not occur, a hushed rule performs only effects that send nothing. -/
theorem Evaluates.hushed (lacks : b ∉ subject.input)
    (h : Evaluates subject stage rule silent pos s t r) (hushed : rule.hushed b = true) :
    ∀ p ∈ t, p.effect.quiet = true := by
  induction h with
  | leaf => exact List.forall_mem_nil _
  | seqEnd _ _ ih | choiceEnd _ _ ih | differenceEnd _ _ ih =>
    exact ih (Bool.and_eq_true_iff.mp hushed).1
  | seqNext _ _ ih₁ ih₂ | choiceNext _ _ ih₁ ih₂ | differenceStop _ _ ih₁ ih₂
  | differenceNext _ _ ih₁ ih₂ =>
    obtain ⟨first, second⟩ := Bool.and_eq_true_iff.mp hushed
    exact List.forall_mem_append.mpr ⟨ih₁ first, ih₂ second⟩
  | manyNext _ _ _ ih₁ ih₂ | many1Next _ _ _ ih₁ ih₂ =>
    exact List.forall_mem_append.mpr ⟨ih₁ hushed, ih₂ hushed⟩
  | optionalStop _ ih | optionalNext _ ih | manyStop _ ih | manyEnd _ _ ih | many1End _ _ ih
  | actionSilent _ ih | actionEnd _ _ ih | actionNext _ ih | close _ ih => exact ih hushed
  | effectSilent _ ih | effectEnd _ _ ih => exact ih (Bool.and_eq_true_iff.mp hushed).1
  | effectStop matched _ ih | effectNext matched _ ih =>
    obtain ⟨part, own⟩ := Bool.and_eq_true_iff.mp hushed
    rw [matched.recognizes.fertile lacks, Bool.or_false] at own
    exact List.forall_mem_append.mpr ⟨ih part, List.forall_mem_singleton.mpr own⟩

theorem Evaluates.unsent (lacks : b ∉ subject.input)
    (h : Evaluates subject stage rule silent pos s t r) (hushed : rule.hushed b = true) :
    noticesSent subject t = [] :=
  List.filterMap_eq_nil_iff.mpr fun p member => Performance.unsent (h.hushed lacks hushed p member)

/-- What sends nothing does not use up the budget. -/
theorem Performance.thrifty {p : Performance σ} (quiet : p.effect.quiet = true) :
    Ends (fun _ _ => True) (fun _ => False) (p.outcome subject) := by
  refine p.outcome_cases subject (fun _ => trivial) (fun _ _ _ => trivial) ?_
  intro pending notice sent
  cases (unsent quiet).symm.trans sent

/-- A balanced rule that sends nothing comes to an end. -/
theorem Evaluates.ends_of_unsent (balanced : rule.Balanced) (calm : subject.monitor.Calm)
    (bounded : subject.Bounded) (inside : pos ≤ subject.stop)
    (quiet : ∀ p ∈ t, p.effect.quiet = true)
    (h : Evaluates subject stage rule false pos s t r) : ∃ m s', r = .ok m s' := by
  have faultless := balanced.faultless calm bounded h inside
  have follows := h.follows
  rcases r with ⟨m, s'⟩ | ⟨errors | fault, s'⟩
  · exact ⟨m, s', rfl⟩
  · obtain ⟨u, p, rfl, -, stopped⟩ := follows
    have own := quiet p (List.mem_append_right u (List.mem_singleton_self p))
    have kept : Ends _ _ (p.outcome subject) := p.thrifty own
    rw [stopped] at kept
    cases kept
  · cases faultless

end Lacking

namespace Xml

namespace Construct

/-- The constructs whose recoveries all skip to a NUL. -/
def skippingToNul : List Construct :=
  [name, reference, comment, attributeValue, attr, entityValue, peReference, enumeratedType,
    attributeList]

theorem hushed_of_mem {construct : Construct} (nul : construct ∈ skippingToNul) :
    construct.rule.hushed 0 = true ∧ construct.rule.residue ≤ 2 := by
  revert construct
  decide +kernel

end Construct

section Quiet

variable {construct : Construct} {d : Driver} {source : Source}
  {verdict : List (Tree Action) → Bool}

/-- Without a NUL the rule of the construct comes to an end, and sends nothing. -/
theorem Construct.ends_unsent (nul : construct ∈ Construct.skippingToNul)
    (lacks : 0 ∉ source.toList) (d : Driver) (verdict : List (Tree Action) → Bool) :
    let subject := d.subject (Driver.scribe verdict) source source.size
    ∃ t m s,
      Evaluates subject .attempt construct.rule false 0 (Driver.fresh Action []) t (.ok m s) ∧
      noticesSent subject t = [] := by
  intro subject
  obtain ⟨hushed, -⟩ := Construct.hushed_of_mem nul
  have balanced : construct.rule.Balanced := (Shipped.construct construct).balanced
  have bounded : subject.Bounded := d.subject_bounded _ source source.size
  have calm : subject.monitor.Calm :=
    Driver.monitor_calm (Driver.scribe_calm verdict) d source source.size
  have absent : 0 ∉ subject.input := by
    change 0 ∉ inputUpTo source (min source.size source.size)
    rw [Nat.min_self, inputUpTo_size]
    exact lacks
  obtain ⟨t, evaluation⟩ :=
    construct.rule.evaluates bounded false 0 (Driver.fresh _ []) (Nat.zero_le _)
  obtain ⟨m, s, returned⟩ := evaluation.ends_of_unsent balanced calm bounded (Nat.zero_le _)
    (evaluation.hushed absent hushed)
  rw [returned] at evaluation
  exact ⟨t, m, s, evaluation, evaluation.unsent absent hushed⟩

/-- A match that sends nothing is clean. -/
theorem Construct.clean_of_unsent
    (accepted : Driver.refuse? source.size 0 source.size = none) {next : Nat}
    {s : Matching (List Notice) Action} {t : List (Performance (List Notice))}
    (h : Evaluates (d.subject (Driver.scribe verdict) source source.size) .attempt construct.rule
      false 0 (Driver.fresh Action []) t (.ok (some next) s))
    (silent : noticesSent (d.subject (Driver.scribe verdict) source source.size) t = []) :
    ∃ f, Derives source source.size construct.rule 0 next f ∧
      Tree.defects (· == .invalid) f = 0 := by
  have balanced : construct.rule.Balanced := (Shipped.construct construct).balanced
  have bounded := d.subject_bounded (Driver.scribe verdict) source source.size
  obtain ⟨-, f, derives, -⟩ := Driver.root_matched balanced accepted
    (h.verdict_eq bounded (Nat.zero_le _))
  obtain ⟨_, _, kept⟩ := Driver.root_keeps balanced (Construct.graded construct) accepted
    whitespace (· == .invalid) h derives
  obtain ⟨owned, told⟩ := Construct.owned_told construct
  have unsent : errorsSent (d.subject (Driver.scribe verdict) source source.size) t = 0 := by
    rw [errorsSent, ← noticesSent, silent]
    rfl
  rw [Nat.min_self] at derives
  exact ⟨f, derives, (kept.clean_iff owned told).mpr unsent⟩

end Quiet

/-- The sink of the client takes every message. -/
def Client.Attentive (client : Client σ) : Prop :=
  ∀ p world notice, (client.sink p world notice).2 = .keep

end Xml

/-- Nothing malformed is skipped where no NUL occurs. With any budget that a driver takes, a parser
of one of the constructs that skip to a NUL finds a valid beginning and sends no message, or it
finds nothing: then the receiver is given no call, at most three errors are counted, and the last
message says that nothing could be parsed. -/
theorem parse_skips_nothing (p : Xml.Parser) (budget : Nat) (construct : Xml.Construct)
    (source : Source) (client : Xml.Client σ) (world : σ)
    (nul : construct ∈ Xml.Construct.skippingToNul) (idle : p.driver.busy = false)
    (calm : client.Calm) (filled : source.toList ≠ []) (lacks : 0 ∉ source.toList) :
    let q := p.withBudget budget
    let run := q.parse construct source client.logged { world }
    let errors := run.parser.driver.lastReport.errors
    q.parse construct source client world = ⟨run.parser, run.world.world, run.outcome⟩ ∧
    ((∃ outcome, run.outcome = .ok outcome ∧ outcome.isGood = true ∧ run.world.messages = [] ∧
        errors = 0) ∨
      (run.outcome = .ok .notParsed ∧ run.world.calls = [] ∧ errors ≤ 3 ∧
        ∃ notices, notices.length ≤ 2 ∧
          UpToRefusal (notices ++ [⟨.fatal "Unable to finish parsing data.", 0⟩])
            run.world.messages ∧
          (client.Attentive → run.world.messages.map (·.given) =
            notices ++ [⟨.fatal "Unable to finish parsing data.", 0⟩]))) := by
  intro q run errors
  refine ⟨q.parse_logged construct source client world, ?_⟩
  obtain ⟨-, small⟩ := Xml.Construct.hushed_of_mem nul
  have least : leastBudget ≤ q.driver.budget := Nat.le_max_right ..
  have four : leastBudget = 4 := rfl
  have balanced : construct.rule.Balanced := (Shipped.construct construct).balanced
  have idle : q.driver.busy = false := idle
  have accepted := Driver.refuse?_whole filled
  obtain ⟨t, m, s, evaluation, silent⟩ :=
    Xml.Construct.ends_unsent nul lacks q.driver (·.all Xml.isValid)
  cases m with
  | some next =>
    left
    obtain ⟨f, derives, clean⟩ := Xml.Construct.clean_of_unsent accepted evaluation silent
    obtain ⟨answered, reported, -, quiet, -⟩ :=
      q.parse_clean construct source world idle (by omega) calm filled derives clean
    refine ⟨_, answered, ?_, quiet, reported⟩
    split <;> rfl
  | none =>
    right
    obtain ⟨notices, driver, length, reported, fits⟩ :=
      Driver.course_failed balanced idle accepted evaluation silent (by omega)
    obtain ⟨heard, part, last, logged, messages, delivered, genuine, -⟩ :=
      q.parse_log construct source world calm fits
    have run_eq : run = _ := logged
    have uncalled : Delivered [] part := delivered
    simp only [errors, run_eq]
    refine ⟨trivial, uncalled.eq_nil, by omega, notices, by omega, messages,
      fun attentive => ?_⟩
    exact messages.all_given fun e member => (genuine e member).not_refused attentive

/-- An attribute whose value is not closed leaves as many messages behind as any. -/
theorem parse_skips_nothing_unclosed :
    let source : Source := (Text.utf8 "a='b").toArray
    let run := (({} : Xml.Parser).withBudget 0).parse .attr source Xml.Client.deaf.logged
      { world := () }
    Xml.Construct.attr ∈ Xml.Construct.skippingToNul ∧ ({} : Xml.Parser).driver.busy = false ∧
    Xml.Client.deaf.Calm ∧ source.toList ≠ [] ∧ 0 ∉ source.toList ∧ Xml.Client.deaf.Attentive ∧
    run.outcome = .ok .notParsed ∧ run.world.calls = [] ∧
    run.parser.driver.lastReport.errors = 3 ∧
    run.world.messages.map (·.given.text) =
      ["Attribute value has no ending single-quote.",
        "Found equal sign but not value in attribute.", "Unable to finish parsing data."] := by
  intro source run
  have calm : Xml.Client.deaf.Calm := Xml.Parser.deaf_calm
  have nul : Xml.Construct.attr ∈ Xml.Construct.skippingToNul := by decide
  have filled : source.toList ≠ [] := List.cons_ne_nil _ _
  have lacks : 0 ∉ source.toList := by decide
  have counted : run.parser.driver.lastReport.errors = 3 := by decide +kernel
  have texts : run.world.messages.map (·.given.text) =
      ["Attribute value has no ending single-quote.",
        "Found equal sign but not value in attribute.", "Unable to finish parsing data."] := by
    decide +kernel
  obtain ⟨-, ⟨_, -, -, -, none⟩ | ⟨answered, uncalled, -⟩⟩ :=
    parse_skips_nothing {} 0 .attr source .deaf () nul rfl calm filled lacks
  · exact absurd (counted.symm.trans none) (by decide)
  · exact ⟨nul, rfl, calm, filled, lacks, fun _ _ _ => rfl, answered, uncalled, counted, texts⟩

end Backtrack
