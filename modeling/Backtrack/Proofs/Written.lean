import Backtrack.Proofs.Courses
import Backtrack.Proofs.Lexemes

/-! Constructs as they are written. Where every clean match of a construct is over the print of
something, what its parser finds valid begins with such a print. Where the rule tells a text
whatever stands behind it, a source that begins with the text is found valid, nothing is reported,
and the receiver is given what is told. -/
namespace Backtrack

variable {σ δ : Type}

namespace Outcome

theorem classify_allValid {valid ateAll : Bool}
    (all : Outcome.classify valid ateAll = .allValid) : valid = true ∧ ateAll = true := by
  revert all
  cases valid <;> cases ateAll <;> decide

theorem classify_isGood {valid ateAll : Bool}
    (good : (Outcome.classify valid ateAll).isGood = true) : valid = true := by
  revert good
  cases valid <;> cases ateAll <;> decide

theorem classify_valid (ateAll : Bool) :
    Outcome.classify true ateAll = if ateAll then .allValid else .someValid := rfl

end Outcome

namespace Driver

theorem refuse?_whole {source : Source} (filled : source.toList ≠ []) :
    refuse? source.size 0 source.size = none := by
  have positive : 0 < source.size := Array.length_toList ▸ List.length_pos_iff.mpr filled
  unfold refuse?
  grind

/-- A range that is refused is not found valid. -/
theorem not_isGood_of_refused {size start stop : Nat} {outcome : Outcome}
    (refused : refuse? size start stop = some outcome) : outcome.isGood = false := by
  revert refused
  unfold refuse?
  repeat' split
  all_goals rintro ⟨⟩
  all_goals rfl

end Driver

namespace Xml

/-- The receiver of the client takes every call. -/
def Client.Accepting (client : Client σ) : Prop :=
  ∀ p world call, (client.receiver p world call).2 = .keep

/-- A clean match from the beginning of a source is over the print of something. -/
theorem Spells.begins {rule : XmlRule} {print : δ → Bytes} (spells : Spells rule print)
    {source : Source} {next : Nat} {f : List (Tree Action)}
    (derives : Derives source source.size rule 0 next f)
    (clean : Tree.defects (· == .invalid) f = 0) :
    ∃ d rest, source.toList = print d ++ rest ∧ (next = source.size → rest = []) := by
  obtain ⟨d, spelled⟩ := spells _ _ _ _ _ (Nat.zero_le _) derives clean
  rw [inputUpTo_size, stretch, List.drop_zero] at spelled
  refine ⟨d, source.toList.drop next, ?_, ?_⟩
  · rw [← spelled, List.take_append_drop]
  · rintro rfl
    rw [← Array.length_toList, List.drop_length]

namespace Parser

variable (p : Parser) (construct : Construct) (source : Source) (world : σ)
  (idle : p.driver.busy = false)
include idle

/-- What is found valid has a clean match, over all of it if it is valid as a whole. -/
theorem clean_of_isGood (client : Client σ) {outcome : Outcome}
    (returned : (p.parse construct source client world).outcome = .ok outcome)
    (good : outcome.isGood = true) :
    ∃ next f, Derives source source.size construct.rule 0 next f ∧
      Tree.defects (· == .invalid) f = 0 ∧ (outcome = .allValid → next = source.size) := by
  cases refused : Driver.refuse? source.size 0 source.size with
  | some refusal =>
    rw [parse_eq, Driver.parse_refused idle refused] at returned
    cases returned
    exact absurd good (by simp [Driver.not_isGood_of_refused refused])
  | none =>
    have balanced := (Shipped.construct construct).balanced
    have judges := client.judges (fun driver => { p with driver }) construct
    obtain ⟨next, f, derives, judged⟩ | ⟨rfl, -⟩ | rfl :=
      Driver.parse_ends balanced idle refused judges returned
    · rw [Nat.min_self] at derives judged
      subst judged
      have valid : f.all isValid = true := Outcome.classify_isGood good
      exact ⟨next, f, derives, (Tree.all_valid_iff f).mp valid,
        fun all => eq_of_beq (Outcome.classify_allValid all).2⟩
    · cases good
    · cases good

/-- What is found valid begins with the print of something, and is one if it is valid as a whole. -/
theorem written_of_isGood {print : δ → Bytes} (spells : Spells construct.rule print)
    (client : Client σ) {outcome : Outcome}
    (returned : (p.parse construct source client world).outcome = .ok outcome)
    (good : outcome.isGood = true) :
    ∃ d rest, source.toList = print d ++ rest ∧ (outcome = .allValid → rest = []) := by
  obtain ⟨next, f, derives, clean, whole⟩ :=
    p.clean_of_isGood construct source world idle client returned good
  obtain ⟨d, rest, split, ends⟩ := spells.begins derives clean
  exact ⟨d, rest, split, fun all => ends (whole all)⟩

/-- The log of a calm client over a source that has a clean match. -/
theorem parse_clean (budget : 0 < p.driver.budget) {client : Client σ} (calm : client.Calm)
    (filled : source.toList ≠ []) {next : Nat} {f : List (Tree Action)}
    (derives : Derives source source.size construct.rule 0 next f)
    (clean : Tree.defects (· == .invalid) f = 0) :
    let run := p.parse construct source client.logged { world }
    run.outcome = .ok (if next = source.size then .allValid else .someValid) ∧
      run.parser.driver.lastReport.errors = 0 ∧
      run.parser.valid construct = true ∧ run.world.messages = [] ∧
      Delivered (f.flatMap construct.items) run.world.calls ∧
      (client.Accepting →
        run.world.calls.map (·.given) = (f.flatMap construct.items).flatMap Item.calls) := by
  intro run
  have accepted := Driver.refuse?_whole filled
  have valid : f.all isValid = true := (Tree.all_valid_iff f).mpr clean
  obtain ⟨owned, charged⟩ := Construct.owned_told construct
  have derives' : Derives source (min source.size source.size) construct.rule 0 next f :=
    (Nat.min_self source.size).symm ▸ derives
  obtain ⟨course, fits, replayed, judged, reported, quiet⟩ :=
    Driver.course_of_derives (Shipped.construct construct).balanced (Construct.graded construct)
      (fun _ _ _ matched => (matched.clean_iff owned charged).mp clean) idle accepted
      (·.all isValid) derives' budget
  obtain ⟨heard, part, last, logged, messages, delivered, -, genuine⟩ :=
    p.parse_log construct source world calm fits
  rw [Nat.min_self, valid, Outcome.classify_valid] at judged
  rw [replayed, Option.getD_some] at delivered
  rw [quiet rfl] at messages
  have run_eq : run = _ := logged
  rw [run_eq, judged, replayed]
  refine ⟨by simp, reported, ?_, messages.eq_nil, delivered, fun accepting => ?_⟩
  · simp [setValid, valid]
  · exact delivered.all_given fun e member => (genuine e member).not_refused accepting

/-- The log of a calm client over a source that begins with a text that the rule tells. -/
theorem parse_written (budget : 0 < p.driver.budget) {client : Client σ} (calm : client.Calm)
    {text rest : Bytes} {said : Source → Nat → List (Item Call)}
    (told : Tells construct.items construct.rule text rest said) (filled : text ≠ [])
    (split : source.toList = text ++ rest) :
    let run := p.parse construct source client.logged { world }
    run.outcome = .ok (if rest = [] then .allValid else .someValid) ∧
      run.parser.driver.lastReport.errors = 0 ∧
      run.parser.valid construct = true ∧ run.world.messages = [] ∧
      Delivered (said source 0) run.world.calls ∧
      (client.Accepting → run.world.calls.map (·.given) = (said source 0).flatMap Item.calls) := by
  obtain ⟨f, derives, clean, items⟩ := told source source.size 0 (.start split)
  have begun : source.toList ≠ [] := by simp [split, filled]
  have atEnd : 0 + text.length = source.size ↔ rest = [] := by
    have length := congrArg List.length split
    rw [Array.length_toList, List.length_append] at length
    rw [← List.length_eq_zero_iff]
    omega
  have run := p.parse_clean construct source world idle budget calm begun derives clean
  simp only [atEnd, items] at run
  exact run

/-- A source is found valid as a whole just where it is the print of something. -/
theorem parse_allValid_iff (budget : 0 < p.driver.budget) {client : Client σ} (calm : client.Calm)
    {print : δ → Bytes} {said : δ → Source → Nat → List (Item Call)}
    (spells : Spells construct.rule print)
    (told : ∀ d, Tells construct.items construct.rule (print d) [] (said d))
    (filled : ∀ d, print d ≠ []) :
    (p.parse construct source client.logged { world }).outcome = .ok .allValid ↔
      ∃ d, source.toList = print d := by
  constructor
  · intro returned
    obtain ⟨d, rest, split, ends⟩ :=
      p.written_of_isGood construct source _ idle spells client.logged returned rfl
    rw [ends rfl, List.append_nil] at split
    exact ⟨d, split⟩
  · rintro ⟨d, text⟩
    have split : source.toList = print d ++ [] := text.trans (List.append_nil _).symm
    exact (p.parse_written construct source world idle budget calm (told d) (filled d) split).1

end Parser
end Xml
end Backtrack
