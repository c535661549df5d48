import Backtrack.Proofs.AttributeSpelling
import Backtrack.Proofs.AttributeTelling
import Backtrack.Proofs.Written

/-! The parser of attribute-list declarations accepts the texts that are written as declarations and
no others, and what it delivers of one is the declaration. -/
namespace Backtrack

variable {σ : Type}

namespace Xml

theorem DeclarationText.print_ne_nil (d : DeclarationText) : d.print ≠ [] :=
  List.cons_ne_nil _ _

end Xml

namespace Xml.Parser

variable (p : Parser) (source : Source) (client : Client σ) (world : σ)
  (idle : p.driver.busy = false)
include idle

/-- Only a written declaration is found valid as a whole. -/
theorem declaration_of_allValid
    (returned : (p.parse .attributeList source client world).outcome = .ok .allValid) :
    ∃ d : DeclarationText, source.toList = d.print := by
  obtain ⟨d, rest, split, ends⟩ :=
    p.written_of_isGood .attributeList source world idle AttributeList.spells client returned rfl
  rw [ends rfl, List.append_nil] at split
  exact ⟨d, split⟩

/-- The log of a calm client over a written declaration. -/
theorem parse_declaration (budget : 0 < p.driver.budget) {client : Client σ} (calm : client.Calm)
    {d : DeclarationText} (text : source.toList = d.print) :
    let run := p.parse .attributeList source client.logged { world }
    run.outcome = .ok .allValid ∧ run.parser.driver.lastReport.errors = 0 ∧
      run.parser.valid .attributeList = true ∧ run.world.messages = [] ∧
      Delivered (d.items source 0) run.world.calls ∧
      (client.Accepting →
        run.world.calls.map (·.given) = (d.items source 0).flatMap Item.calls) := by
  have split : source.toList = d.print ++ [] := text.trans (List.append_nil _).symm
  exact p.parse_written .attributeList source world idle budget calm (d.tells []) d.print_ne_nil
    split

end Xml.Parser

/-- The last call says that the whole source is a valid declaration. -/
theorem Xml.DeclarationText.items_getLast (d : DeclarationText) {source : Source}
    (text : source.toList = d.print) :
    (d.items source 0).getLast? = some (.call (.attributeListDone true (.whole source))) := by
  have whole : Span.ofText source 0 d.print = .whole source := by
    rw [Span.ofText, ← text, Array.length_toList, Nat.zero_add]
    rfl
  rw [items, whole, ← List.cons_append, List.getLast?_concat]

/-- The parser of attribute-list declarations finds a source valid as a whole just where it is a
declaration as it is written: after `<!ATTLIST`, a space and a name come definitions of a name, a
type and a default each. Then nothing is reported, and the receiver of a client that never gives up
is given the declaration, which names the element, its attributes, their types and defaults in
order, with the alternatives of a type and the pieces of a value in blocks, and closes over the
whole source. A receiver that takes every call is given all of it. -/
theorem parse_declares (p : Xml.Parser) (source : Source) (client : Xml.Client σ) (world : σ)
    (idle : p.driver.busy = false) (budget : 0 < p.driver.budget) (calm : client.Calm) :
    let run := p.parse .attributeList source client.logged { world }
    p.parse .attributeList source client world = ⟨run.parser, run.world.world, run.outcome⟩ ∧
    (run.outcome = .ok .allValid ↔ ∃ d : Xml.DeclarationText, source.toList = d.print) ∧
    ∀ d : Xml.DeclarationText, source.toList = d.print →
      run.parser.driver.lastReport.errors = 0 ∧ run.parser.valid .attributeList = true ∧
      run.world.messages = [] ∧ Delivered (d.items source 0) run.world.calls ∧
      (d.items source 0).getLast? = some (.call (.attributeListDone true (.whole source))) ∧
      (client.Accepting →
        run.world.calls.map (·.given) = (d.items source 0).flatMap Item.calls) := by
  intro run
  refine ⟨p.parse_logged .attributeList source client world, ⟨fun returned => ?_, ?_⟩, ?_⟩
  · exact p.declaration_of_allValid source client.logged _ idle returned
  · rintro ⟨d, text⟩
    exact (p.parse_declaration source world idle budget calm text).1
  · intro d text
    obtain ⟨-, reported, valid, silent, delivered, given⟩ :=
      p.parse_declaration source world idle budget calm text
    exact ⟨reported, valid, silent, delivered, d.items_getLast text, given⟩

/-- A keyword that begins with another, and a list of notations with a fixed value that ends with a
reference. -/
theorem parse_declares_notations :
    let space : Xml.Space := ⟨⟨[0x20], List.forall_mem_singleton.mpr rfl⟩, by decide⟩
    let gap : Xml.Gap := ⟨[], by simp⟩
    let name (first : UInt8) (begins : Xml.firstNameChar.contains first = true) : Xml.NameText :=
      ⟨first, ⟨[], by simp⟩, begins⟩
    let names : Xml.Choices Xml.NameText :=
      ⟨gap, name 0x78 rfl, [(gap, gap, name 0x79 rfl)], gap⟩
    let value : Xml.ValueText :=
      ⟨.single, ⟨⟨[0x70], List.forall_mem_singleton.mpr rfl⟩,
        [(.entity (name 0x71 rfl), ⟨[], by simp⟩)]⟩⟩
    let d : Xml.DeclarationText := ⟨space, name 0x65 rfl,
      [⟨space, name 0x61 rfl, space, .keyword .idRefs (by decide), space, .required⟩,
        ⟨space, name 0x62 rfl, space, .notations gap names, space,
          .value (some space) value⟩], gap⟩
    let source : Source :=
      (Text.utf8 "<!ATTLIST e a IDREFS #REQUIRED b NOTATION(x|y) #FIXED 'p&q;'>").toArray
    let run := ({} : Xml.Parser).parse .attributeList source Xml.Client.deaf.logged { world := () }
    ({} : Xml.Parser).driver.busy = false ∧ 0 < ({} : Xml.Parser).driver.budget ∧
    Xml.Client.deaf.Calm ∧ source.toList = d.print ∧ run.outcome = .ok .allValid ∧
    run.world.calls.map (·.given) = (d.items source 0).flatMap Item.calls ∧
    run.world.calls.length = 16 := by
  intro space gap name names value d source run
  have calm : Xml.Client.deaf.Calm := Xml.Parser.deaf_calm
  have text : source.toList = d.print := rfl
  obtain ⟨-, valid, told⟩ := parse_declares {} source .deaf () rfl (by decide) calm
  obtain ⟨-, -, -, -, -, given⟩ := told d text
  have all := given fun _ _ _ => rfl
  refine ⟨rfl, by decide, calm, text, valid.mpr ⟨d, text⟩, all, ?_⟩
  have length := congrArg List.length all
  rw [List.length_map] at length
  exact length.trans rfl

end Backtrack
