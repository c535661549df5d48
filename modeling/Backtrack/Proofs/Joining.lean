import Backtrack.Proofs.CallStream
import Backtrack.Proofs.Courses
import Backtrack.Proofs.Readable

/-! Config files put together. The lines of a text that ends with a line feed stay as they are
whatever follows them, so a parse of two such texts in a row finds the defects of both and makes the
calls of both. All that is carried from the one to the other is whether a section is open. -/
namespace Backtrack

variable {σ : Type}

/-- The first part of joined sources. -/
theorem HoldsAt.left (upper lower : Source) : HoldsAt (upper ++ lower) 0 upper where
  inside := by simp
  bytes := by simp [Array.extract_append]

theorem HoldsAt.right (upper lower : Source) : HoldsAt (upper ++ lower) upper.size lower where
  inside := by simp
  bytes := by simp [Array.extract_append]

namespace Config

open Grammar

/-- The lines of two texts in a row. -/
theorem Policy.Plain.joined_fileLines {p : Policy} (plain : p.Plain) {a : Bytes}
    {upper lower : Source} {f g : List (Tree Action)} (text : upper.toList = a ++ [0x0A])
    (first : FileLines p upper upper.size 0 f) (second : FileLines p lower lower.size 0 g) :
    FileLines p (upper ++ lower) (upper ++ lower).size 0
      (f.map (Tree.displace (upper ++ lower) 0) ++
        g.map (Tree.displace (upper ++ lower) upper.size)) := by
  have joined : inputUpTo (upper ++ lower) (upper ++ lower).size =
      inputUpTo upper upper.size ++ inputUpTo lower lower.size := by
    simp only [inputUpTo_size, Array.toList_append]
  have lines := plain.fileLines_append first second ((inputUpTo_size upper).trans text) joined
    (Nat.zero_le _)
  rwa [inputUpTo_size, Array.length_toList] at lines

/-- The calls for two journals in a row. -/
theorem calls_joined (p : Policy) {upper lower : Source} {f g : List (Tree Action)} {m n : Nat}
    (first : Nests upper 0 f m) (second : Nests lower 0 g n) :
    let above := calls p false f
    let below := calls p false g
    calls p false (f.map (Tree.displace (upper ++ lower) 0) ++
        g.map (Tree.displace (upper ++ lower) upper.size)) =
      above.map (Call.displace (upper ++ lower) 0) ++
        (if above.any Call.opensSection then below.map Call.inSection else below).map
          (Call.displace (upper ++ lower) upper.size) := by
  intro above below
  have opens : Call.opensSection ∘ Call.displace (upper ++ lower) 0 = Call.opensSection := by
    funext call
    cases call <;> rfl
  rw [calls_append, calls_displace (.left upper lower) first,
    calls_displace (.right upper lower) second, List.any_map, Bool.false_or, opens]
  cases opened : above.any Call.opensSection with
  | true => rw [calls_inSection, if_pos rfl]
  | false => rw [if_neg Bool.false_ne_true]

/-- What the parse of a file does, told from its lines. -/
theorem Parser.parse_lines (p : Parser) (idle : p.driver.busy = false) (plain : p.policy.Plain)
    {client : Client σ} (calm : client.Calm) {source : Source} {f : List (Tree Action)}
    (filled : 0 < source.size) (lines : FileLines p.policy source source.size 0 f) (world : σ) :
    let run := p.parse source client.logged { world }
    let parsed := p.parse source client world
    let errors := parsed.parser.driver.lastReport.errors
    (errors < p.driver.budget ↔ Tree.defects isDefect f < p.driver.budget) ∧
    (errors < p.driver.budget →
      errors = Tree.defects isDefect f ∧
      (parsed.outcome = .ok .allValid ↔ f.all isValid = true) ∧
      (errors = 0 → run.world.messages = []) ∧
      (client.Accepting → run.world.calls.map (·.given) = allCalls p.policy f)) := by
  intro run parsed errors
  have logged : parsed = ⟨run.parser, run.world.world, run.outcome⟩ :=
    p.parse_logged source 0 source.size client world
  have derives := plain.filled.root_iff.mpr ⟨rfl, lines⟩
  rw [length_inputUpTo (Nat.le_refl _)] at derives
  have told := p.parse_derived idle calm filled (Nat.le_refl _) derives world
  have same : errors = run.parser.driver.lastReport.errors := by simp only [errors, logged]
  have ended : parsed.outcome = run.outcome := by rw [logged]
  rw [same, ended]
  refine ⟨told.1, fun within => ?_⟩
  obtain ⟨count, judged, quiet, -, given⟩ := told.2 within
  refine ⟨count, ?_, quiet, given⟩
  rw [show run.outcome = _ from judged]
  cases f.all isValid <;> simp

end Config

/-- A config file of readable lines, put in front of a readable text that is not empty. Under a
budget that exceeds the errors of both, the parse of the whole sends as many errors as the two
parses, is valid just if both are, and makes the calls of both: those of the second with the pairs
as pairs of a section if the first has named one, and with the spans moved to where the bytes now
stand. The closing call, which each parse makes last, tells whether both are valid. -/
theorem parse_joined (p : Config.Parser) (a b : Bytes) (client : Config.Client σ)
    (w₁ w₂ w : σ) (idle : p.driver.busy = false) (inOrder : p.policy.validate = .ok ())
    (printable : p.policy.Printable) (filled : b ≠ []) (readable : Readable (a ++ [0x0A]))
    (readable' : Readable b) (calm : client.Calm) :
    let upper : Source := (a ++ [0x0A]).toArray
    let lower : Source := b.toArray
    let errors (parsed : Config.Parsed σ) := parsed.parser.driver.lastReport.errors
    let valid (parsed : Config.Parsed σ) := parsed.outcome = .ok .allValid
    let made (source : Source) (world : σ) :=
      (p.parse source client.logged { world }).world.calls.map (·.given)
    let first := p.parse upper client w₁
    let second := p.parse lower client w₂
    let whole := p.parse (upper ++ lower) client w
    errors first + errors second < p.driver.budget →
    errors whole = errors first + errors second ∧
    (valid whole ↔ valid first ∧ valid second) ∧
    (client.Accepting → ∃ above below v₁ v₂,
      made upper w₁ = above ++ [.done v₁] ∧ made lower w₂ = below ++ [.done v₂] ∧
      (∀ call ∈ above, ∀ span ∈ call.spans, span.source = upper) ∧
      (∀ call ∈ below, ∀ span ∈ call.spans, span.source = lower) ∧
      made (upper ++ lower) w =
        above.map (Config.Call.displace (upper ++ lower) 0) ++
          (if above.any Config.Call.opensSection then below.map Config.Call.inSection
            else below).map (Config.Call.displace (upper ++ lower) upper.size) ++
          [.done (v₁ && v₂)]) := by
  intro upper lower errors valid made first second whole affords
  have plain := printable.plain inOrder
  have lined (source : Source) (readable : Readable source.toList) :
      ∃ f, Config.Grammar.FileLines p.policy source source.size 0 f :=
    plain.fileLines (by rwa [inputUpTo_size, List.drop_zero]) (Nat.zero_le _)
  obtain ⟨f, above⟩ := lined upper readable
  obtain ⟨g, below⟩ := lined lower readable'
  let forest := f.map (Tree.displace (upper ++ lower) 0) ++
    g.map (Tree.displace (upper ++ lower) upper.size)
  have both : Config.Grammar.FileLines p.policy (upper ++ lower) (upper ++ lower).size 0 forest :=
    plain.joined_fileLines (a := a) rfl above below
  have solid : 0 < upper.size := by simp [upper]
  have solid' : 0 < lower.size := by simpa [lower] using List.length_pos_of_ne_nil filled
  have solid_both : 0 < (upper ++ lower).size := by
    rw [Array.size_append]
    omega
  have defects : Tree.defects Config.isDefect forest =
      Tree.defects Config.isDefect f + Tree.defects Config.isDefect g := by
    rw [Tree.defects_append, Tree.defects_displace, Tree.defects_displace]
  have within : errors first < p.driver.budget := by omega
  have within' : errors second < p.driver.budget := by omega
  obtain ⟨count₁, valid₁, -, given₁⟩ := (p.parse_lines idle plain calm solid above w₁).2 within
  obtain ⟨count₂, valid₂, -, given₂⟩ := (p.parse_lines idle plain calm solid' below w₂).2 within'
  have sum : errors first + errors second = Tree.defects Config.isDefect forest := by
    rw [defects]
    exact congrArg₂ (· + ·) count₁ count₂
  obtain ⟨few, told⟩ := p.parse_lines idle plain calm solid_both both w
  obtain ⟨count, valid_both, -, given⟩ := told (few.mpr (sum ▸ affords))
  have clean (trees : List (Tree Config.Action)) :
      trees.all Config.isValid = true ↔ Tree.defects Config.isDefect trees = 0 :=
    Tree.all_valid_iff trees
  have judged : forest.all Config.isValid = (f.all Config.isValid && g.all Config.isValid) := by
    rw [Bool.eq_iff_iff, Bool.and_eq_true, clean, clean, clean, defects, Nat.add_eq_zero_iff]
  have nests := (plain.filled.root_iff.mpr ⟨rfl, above⟩).nests (Nat.zero_le _)
  have nests' := (plain.filled.root_iff.mpr ⟨rfl, below⟩).nests (Nat.zero_le _)
  refine ⟨count.trans sum.symm, ?_, fun accepting => ?_⟩
  · exact valid_both.trans (by rw [judged, Bool.and_eq_true, ← valid₁, ← valid₂])
  · refine ⟨_, _, _, _, given₁ accepting, given₂ accepting,
      Config.calls_source nests false, Config.calls_source nests' false, ?_⟩
    rw [show made (upper ++ lower) w = _ from given accepting, Config.allCalls, judged,
      Config.calls_joined p.policy nests nests']

/-- A pair without a value behind a section whose header has no end, under the smallest budget. -/
theorem parse_joined_header :
    let p := Config.Parser.build { budget := leastBudget }
    let a : Bytes := [0x5B, 0x73, 0x5D]
    let b : Bytes := [0x6B, 0x0A, 0x5B]
    let upper : Source := (a ++ [0x0A]).toArray
    let lower : Source := b.toArray
    let errors (source : Source) :=
      (p.parse source .deaf ()).parser.driver.lastReport.errors
    p.driver.busy = false ∧ p.policy.validate = .ok () ∧ p.policy.Printable ∧ b ≠ [] ∧
    Readable (a ++ [0x0A]) ∧ Readable b ∧ Config.Client.deaf.Calm ∧
    errors upper + errors lower < p.driver.budget ∧ Config.Client.deaf.Accepting ∧
    errors (upper ++ lower) = 1 := by
  intro p a b upper lower errors
  have inOrder : p.policy.validate = .ok () := by decide +kernel
  have printable : p.policy.Printable := by
    unfold Config.Policy.Printable
    decide +kernel
  have readable : Readable (a ++ [0x0A]) := .of_forall (by decide +kernel)
  have readable' : Readable b := .of_forall (by decide +kernel)
  have none : errors upper = 0 := by decide +kernel
  have one : errors lower = 1 := by decide +kernel
  have affords : errors upper + errors lower < p.driver.budget := by
    rw [none, one]
    decide
  have sum : errors (upper ++ lower) = errors upper + errors lower :=
    (parse_joined p a b .deaf () () () rfl inOrder printable (by decide) readable readable'
      Config.Parser.deaf_calm affords).1
  exact ⟨rfl, inOrder, printable, by decide, readable, readable', Config.Parser.deaf_calm, affords,
    fun _ _ _ => rfl, by rw [sum, none, one]⟩

end Backtrack
