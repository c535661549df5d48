import Backtrack.Proofs.History
import Backtrack.Proofs.Verdicts

/-! What a parser remembers of its constructs. A parse that comes to a verdict on its journal notes
it for its own construct, and any other parse notes nothing: one that is refused, that has no match,
whose budget is used up, or that the caller gave up. So over a row of requests each construct keeps
the last verdict on it. -/
namespace Backtrack

universe u

variable {σ : Type}

/-- The verdict on a replayed journal, where there is one. -/
def Outcome.verdict? : Outcome → Option Bool
  | allValid | someValid => some true
  | notValid => some false
  | _ => none

namespace Outcome

@[simp] theorem verdict?_classify (valid ateAll : Bool) :
    (classify valid ateAll).verdict? = some valid := by
  cases valid <;> cases ateAll <;> rfl

theorem verdict?_of_refused {size start stop : Nat} {outcome : Outcome}
    (refused : Driver.refuse? size start stop = some outcome) : outcome.verdict? = none := by
  revert refused
  unfold Driver.refuse?
  repeat' split
  all_goals rintro ⟨⟩
  all_goals rfl

end Outcome

/-- The requests in a row, each with what it was answered. -/
def Service.answers {S P : Type} {R : Type u} (service : Service σ S P R) :
    List R → P → σ → List (R × Except Fault Outcome)
  | [], _, _ => []
  | request :: past, parser, world =>
    let served := service.serve parser world request
    (request, served.outcome) :: service.answers past served.parser served.world

namespace Xml

/-- The verdict that an answer brings on a construct. -/
def verdictOn? (construct : Construct) : Request σ × Except Fault Outcome → Option Bool
  | (request, .ok outcome) => if request.construct = construct then outcome.verdict? else none
  | (_, .error _) => none

namespace Parser

/-- A replay that gives up leaves the memory as it is, and one that returns notes its verdict. -/
theorem replay_flags (construct : Construct) (receiver : Receiver σ Call)
    (forest : List (Tree Action)) (flags : Construct → Bool) (world : σ) :
    match replay construct receiver forest (flags, world) with
    | .ok valid (flags', _) => flags' = setValid flags construct valid
    | .error _ (flags', _) => flags' = flags := by
  simp only [replay, bind_apply, besideOwn]
  cases Delivery.items receiver {} (forest.flatMap construct.items) world <;> rfl

theorem parse_of_driver {p : Parser} {construct : Construct} {source : Source} {client : Client σ}
    {world : σ} {result : Backtrack.Parsed ((Construct → Bool) × σ)}
    (parsed : p.driver.parse (client.besideFlags (fun driver => { p with driver }) construct)
      construct.rule source 0 source.size (p.valid, world) = result) :
    p.parse construct source client world =
      ⟨⟨result.driver, result.world.1⟩, result.world.2, result.outcome⟩ := by
  rw [p.parse_eq, parsed]

section Noting

variable {p : Parser} {construct : Construct} {source : Source} {client : Client σ} {world : σ}

/-- Noted is the verdict of the parse for its construct if there is one, and otherwise nothing. -/
def Notes (p : Parser) (construct : Construct) (parsed : Parsed σ) : Prop :=
  parsed.parser.valid =
    (parsed.outcome.toOption.bind Outcome.verdict?).elim p.valid (setValid p.valid construct)

theorem sink_keeps_flags (p : Parser) (construct : Construct) (client : Client σ)
    (state : (Construct → Bool) × σ) (notice : Notice) (same : state.1 = p.valid) :
    ((client.besideFlags (fun driver => { p with driver }) construct).sink p.driver.inside state
      notice).1.1 = p.valid := same

/-- A match is replayed, and the replay notes its verdict. -/
theorem notes_of_match (idle : p.driver.busy = false)
    (accepted : Driver.refuse? source.size 0 source.size = none) {next : Nat}
    {s : Matching ((Construct → Bool) × σ) Action}
    (run : construct.rule.run (p.driver.subject
      (client.besideFlags (fun driver => { p with driver }) construct) source source.size) false 0
      (Driver.fresh Action (p.valid, world)) = .ok (some next) s) :
    Notes p construct (p.parse construct source client world) := by
  let host := client.besideFlags (fun driver => { p with driver }) construct
  obtain ⟨empty, forest, -, -, read⟩ :=
    Driver.root_matched (Shipped.construct construct).balanced accepted run
  have before : s.diagnostics.world.1 = p.valid :=
    Driver.run_confined (sink_keeps_flags p construct client) rfl run
  have noted := replay_flags construct (client.receiver { p with driver := p.driver.inside })
    forest s.diagnostics.world.1 s.diagnostics.world.2
  cases replayed : host.replay p.driver.inside forest s.diagnostics.world with
  | ok valid world' =>
    have judged : replay construct _ forest (_, _) = .ok valid world' := replayed
    rw [judged, before] at noted
    rw [parse_of_driver (Driver.parse_matched idle accepted run empty read replayed)]
    simpa [Notes, Except.toOption] using noted
  | error fault world' =>
    have given : replay construct _ forest (_, _) = .error fault world' := replayed
    rw [given, before] at noted
    rw [parse_of_driver (Driver.parse_faulted idle accepted run empty read replayed)]
    exact noted

/-- Without a match nothing is replayed, and nothing noted. -/
theorem notes_of_no_match (idle : p.driver.busy = false)
    (accepted : Driver.refuse? source.size 0 source.size = none)
    (unmatched : ∀ next s, construct.rule.run (p.driver.subject
      (client.besideFlags (fun driver => { p with driver }) construct) source source.size) false 0
      (Driver.fresh Action (p.valid, world)) ≠ .ok (some next) s) :
    Notes p construct (p.parse construct source client world) := by
  have after : (p.parse construct source client world).parser.valid = p.valid :=
    Driver.parse_confined (sink_keeps_flags p construct client) rfl idle accepted unmatched
  unfold Notes
  cases returned : (p.parse construct source client world).outcome with
  | error fault => exact after
  | ok outcome =>
    obtain ⟨rfl | rfl, -⟩ := Driver.parse_unjudged idle accepted returned unmatched <;>
      exact after

end Noting

/-- A parse notes its verdict for its construct if it comes to one, and otherwise nothing. -/
theorem parse_valid (p : Parser) (construct : Construct) (source : Source) (client : Client σ)
    (world : σ) : Notes p construct (p.parse construct source client world) := by
  by_cases busy : p.driver.busy = true
  · rw [parse_of_driver (Driver.parse_busy busy ..)]
    rfl
  have idle : p.driver.busy = false := by simpa using busy
  cases refused : Driver.refuse? source.size 0 source.size with
  | some outcome =>
    rw [parse_of_driver (Driver.parse_refused idle refused ..)]
    simp [Notes, Except.toOption, Outcome.verdict?_of_refused refused]
  | none =>
    by_cases matched : ∃ next s, construct.rule.run (p.driver.subject
        (client.besideFlags (fun driver => { p with driver }) construct) source source.size) false 0
        (Driver.fresh Action (p.valid, world)) = .ok (some next) s
    · obtain ⟨next, s, run⟩ := matched
      exact notes_of_match idle refused run
    · exact notes_of_no_match idle refused fun next s run => matched ⟨next, s, run⟩

theorem withBudgets_valid (p : Parser) (changes : List Nat) :
    (changes.foldl withBudget p).valid = p.valid := by
  induction changes generalizing p with
  | nil => rfl
  | cons change changes ih => exact ih _

/-- A request notes the verdict that its answer brings on a construct. -/
theorem serve_valid (p : Parser) (world : σ) (request : Request σ) (construct : Construct) :
    let served := (service σ).serve p world request
    served.parser.valid construct =
      (verdictOn? construct (request, served.outcome)).getD (p.valid construct) := by
  intro served
  have noted : served.parser.valid = _ := (request.budgets.foldl withBudget p).parse_valid
    request.construct request.source request.client world
  rw [withBudgets_valid] at noted
  rw [noted]
  change (Option.elim (served.outcome.toOption.bind Outcome.verdict?) _ _ : Construct → Bool) _ = _
  cases served.outcome with
  | error fault => rfl
  | ok outcome =>
    cases judged : outcome.verdict? with
    | none => simp [verdictOn?, Except.toOption, judged]
    | some valid =>
      simp only [verdictOn?, Except.toOption, Option.bind_some, judged, Option.elim_some, setValid]
      by_cases same : construct = request.construct
      · simp [same]
      · simp [same, Ne.symm same]

/-- After some requests each construct has the last verdict on it, or what it had before. -/
theorem after_valid (p : Parser) (past : List (Request σ)) (world : σ) (construct : Construct) :
    ((service σ).after past p world).1.valid construct =
      (((service σ).answers past p world).filterMap (verdictOn? construct)).getLast?.getD
        (p.valid construct) := by
  induction past generalizing p world with
  | nil => rfl
  | cons request past ih =>
    let served := (service σ).serve p world request
    have later : ((service σ).after (request :: past) p world).1.valid construct = _ :=
      ih served.parser served.world
    rw [later, p.serve_valid world request construct, Service.answers, List.filterMap_cons]
    cases verdictOn? construct (request, served.outcome) with
    | none => rfl
    | some valid => simp [List.getLast?_cons, served]

end Parser

/-- A parser remembers for each construct the last verdict on it. A construct is valid after a row
of requests of a new parser just where some request of that construct ended in a verdict and the
last such verdict was good; requests of other constructs change nothing, whatever constructs they
contain. The row may hold any requests: changes of the budget, and clients that give up, refuse, or
request parses of the parser that they are shown, which takes none. -/
theorem valid_iff_last_verdict (driver : Driver) (past : List (Request σ)) (world : σ)
    (construct : Construct) :
    let anew : Parser := { driver }
    let answers := (Parser.service σ).answers past anew world
    let (p, world') := (Parser.service σ).after past anew world
    (p.valid construct = true ↔
      (answers.filterMap (verdictOn? construct)).getLast? = some true) ∧
    (∀ request : Request σ, request.construct ≠ construct →
      ((Parser.service σ).serve p world' request).parser.valid construct = p.valid construct) ∧
    ({ p with driver := p.driver.inside } : Parser).Refuses := by
  intro anew answers
  have kept := anew.after_valid past world construct
  generalize (Parser.service σ).after past anew world = run at kept
  obtain ⟨p, world'⟩ := run
  refine ⟨?_, fun request other => ?_, Parser.refuses_of_busy rfl⟩
  · rw [kept]
    cases (answers.filterMap (verdictOn? construct)).getLast? <;> simp [anew]
  · rw [Parser.serve_valid]
    simp only [verdictOn?]
    split <;> simp_all

/-- A reference is valid and stays so: one without a match and one that the caller gave up come to
no verdict, and a value that is not valid only contains a reference. -/
theorem valid_iff_last_verdict_reference :
    let failing : Client Unit :=
      ⟨fun _ _ _ => ((), .crash "gave up"), fun _ _ _ => ((), .keep)⟩
    let good : Request Unit := ⟨[], .reference, (Text.utf8 "&a;").toArray, .deaf⟩
    let unmatched : Request Unit := ⟨[4], .reference, (Text.utf8 "&#").toArray, .deaf⟩
    let abandoned : Request Unit := ⟨[], .reference, (Text.utf8 "&b;").toArray, failing⟩
    let value : Request Unit := ⟨[100], .attributeValue, (Text.utf8 "'&#\x00").toArray, .deaf⟩
    let past := [good, unmatched, abandoned]
    let (p, world) := (Parser.service Unit).after past { driver := {} } ()
    let served := (Parser.service Unit).serve p world value
    ((Parser.service Unit).answers past { driver := {} } ()).map (·.2.toOption) =
      [some .allValid, some .notParsed, none] ∧
    p.valid .reference = true ∧ value.construct ≠ .reference ∧
    served.outcome.toOption = some .notValid ∧
    served.parser.valid .reference = true := by
  intro failing good unmatched abandoned value past
  obtain ⟨flag, others, -⟩ := valid_iff_last_verdict {} past () .reference
  have valid := flag.mpr (by decide +kernel)
  have other : value.construct ≠ .reference := by decide
  exact ⟨by decide +kernel, valid, other, by decide +kernel, (others value other).trans valid⟩

end Xml
end Backtrack
