import Backtrack.Proofs.Joining
import Backtrack.Proofs.PrintedLines

/-! What is printed is read. The journal of a printed text is that of its first line and then that
of the lines behind it, so the calls for a printed document say its settings and sections, and
nothing in it is a defect. -/
namespace Backtrack.Config

open Grammar

section Sayings

variable {p : Policy} {outer inner : Source} {offset : Nat}

/-- A call says the same wherever its bytes stand. -/
theorem Call.saying_displace (holds : HoldsAt outer offset inner) {call : Call}
    (shown : ∀ span ∈ call.spans, span.source = inner) :
    (call.displace outer offset).saying = call.saying := by
  have value {v : Option Span} (inSource : ∀ span ∈ v.toList, span.source = inner) :
      (v.map (Span.displace outer offset)).map Span.bytes = v.map Span.bytes := by
    cases v with
    | none => rfl
    | some span => exact congrArg some (Span.bytes_displace holds (inSource span (by simp)))
  cases call with
  | globalKey key v =>
    obtain ⟨first, rest⟩ := List.forall_mem_cons.mp shown
    exact congrArg₂ Saying.globalKey (Span.bytes_displace holds first) (value rest)
  | sectionName name =>
    exact congrArg Saying.sectionName (Span.bytes_displace holds (shown name (by simp [spans])))
  | sectionKey key v =>
    obtain ⟨first, rest⟩ := List.forall_mem_cons.mp shown
    exact congrArg₂ Saying.sectionKey (Span.bytes_displace holds first) (value rest)
  | done valid => rfl

theorem sayings_displace (holds : HoldsAt outer offset inner) {start stop : Nat}
    {f : List (Tree Action)} (nests : Nests inner start f stop) (inSection : Bool) :
    (calls p inSection (f.map (Tree.displace outer offset))).map Call.saying =
      (calls p inSection f).map Call.saying := by
  rw [calls_displace holds nests, List.map_map]
  exact List.map_congr_left fun call member =>
    call.saying_displace holds (calls_source nests inSection call member)

theorem any_opensSection (made : List Call) :
    made.any Call.opensSection = (made.map Call.saying).any Saying.opensSection := by
  rw [List.any_map]
  congr 1
  funext call
  cases call <;> rfl

end Sayings

section Texts

variable {p : Policy} (punctual : p.Punctual) {l : Layout} (blank : l.Blank)
include punctual blank

/-- The journal of printed lines. -/
theorem Policy.Punctual.lines_shown {lines : List Line} (fits : ∀ line ∈ lines, line.Fits p)
    {source : Source} (whole : source.toList = lines.flatMap (Line.print p l)) :
    ∃ f, FileLines p source source.size 0 f ∧ Tree.defects isDefect f = 0 ∧
      ∀ inSection, (calls p inSection f).map Call.saying = Line.sayings inSection lines := by
  induction lines generalizing source with
  | nil =>
    have start := Faces.start whole
    have rejects : gap.Rejects [] := gap_rejects nofun
    have spaces : Recognizes (inputUpTo source source.size) spacing 0 (some 0) :=
      rejects.many _ _ start
    have length : (inputUpTo source source.size).length = 0 := by
      rw [inputUpTo_size, whole]
      rfl
    exact ⟨[], .ends (length ▸ spaces), rfl, fun _ => rfl⟩
  | cons line lines ih =>
    let upper : Source := (line.print p l).toArray
    let lower : Source := (lines.flatMap (Line.print p l)).toArray
    obtain ⟨above, below⟩ := List.forall_mem_cons.mp fits
    obtain ⟨f, first, shows⟩ := punctual.line_shown blank above (show upper.toList = _ from rfl)
    obtain ⟨g, rest, clean, said⟩ := ih below (show lower.toList = _ from rfl)
    obtain rfl : source = upper ++ lower := by
      apply Array.toList_inj.mp
      rw [whole, Array.toList_append, List.flatMap_cons]
    have nests := (punctual.plain.filled.root_iff.mpr ⟨rfl, first⟩).nests (Nat.zero_le _)
    have nests' := (punctual.plain.filled.root_iff.mpr ⟨rfl, rest⟩).nests (Nat.zero_le _)
    refine ⟨_, punctual.plain.joined_fileLines rfl first rest, ?_, fun inSection => ?_⟩
    · rw [Tree.defects_append, Tree.defects_displace, Tree.defects_displace, shows.clean, clean]
    · rw [calls_append, List.map_append, any_opensSection, sayings_displace (.left ..) nests,
        sayings_displace (.right ..) nests', shows.said, said, Line.sayings]
      simp [Line.opensSection_saying]

end Texts

theorem Policy.collision?_eq_none {delimiters : List (String × String)}
    (apart : delimiters.Pairwise fun d e => d.2 ≠ e.2) : collision? delimiters = none := by
  induction apart with
  | nil => rfl
  | @cons d rest first _ ih =>
    have unmatched : rest.find? (·.2 == d.2) = none := by
      refine List.find?_eq_none.mpr fun e member same => ?_
      exact first e member (beq_iff_eq.mp same).symm
    rw [collision?, unmatched]
    exact ih

/-- A policy with delimiters of punctuation is in order, so that there is a parser for it. -/
theorem Policy.Punctual.inOrder {p : Policy} (punctual : p.Punctual) : p.validate = .ok () := by
  have filled : p.delimiters.find? (·.2.isEmpty) = none := by
    refine List.find?_eq_none.mpr fun d member empty => punctual.filled d member ?_
    rw [String.isEmpty_iff.mp empty]
    rfl
  have apart : p.delimiters.Pairwise fun d e => d.2 ≠ e.2 := by
    refine punctual.apart.imp fun different same => different.1 ?_
    rw [same]
  simp [validate, error?, filled, collision?_eq_none apart]

/-- Something is printed for a document that is not empty. -/
theorem Document.Fits.print_ne_nil {p : Policy} {d : Document} (fits : d.Fits p) (l : Layout) :
    d.print p l ≠ [] := by
  obtain ⟨line, lines, same⟩ := List.exists_cons_of_ne_nil fits.lines_ne_nil
  simp [print, same, Line.print]

end Backtrack.Config

namespace Backtrack

variable {σ : Type}

/-- A document is read as it was printed. Its names are letters, digits and underscores, the
delimiters are of other punctuation, and its values hold no delimiter that would cut them short.
Then nothing in the printed text is a defect, no message is sent, and a client that takes every call
is told just the settings and the sections of the document in order, and then that the file is
valid. -/
theorem parse_printed (p : Config.Parser) (l : Config.Layout) (d : Config.Document)
    (client : Config.Client σ) (world : σ) (idle : p.driver.busy = false)
    (budget : leastBudget ≤ p.driver.budget) (punctual : p.policy.Punctual) (blank : l.Blank)
    (fits : d.Fits p.policy) (calm : client.Calm) :
    let source : Source := (d.print p.policy l).toArray
    let log := (p.parse source client.logged { world }).world
    let parsed := p.parse source client world
    p.policy.validate = .ok () ∧ parsed.outcome = .ok .allValid ∧
    parsed.parser.driver.lastReport.errors = 0 ∧ log.messages = [] ∧
    (client.Accepting → log.calls.map (·.given.saying) = d.sayings ++ [.done true]) := by
  intro source log parsed
  obtain ⟨f, lines, clean, said⟩ :=
    punctual.lines_shown blank fits.lines (show source.toList = _ from rfl)
  have filled : 0 < source.size := List.length_pos_of_ne_nil (fits.print_ne_nil l)
  obtain ⟨few, told⟩ := p.parse_lines idle punctual.plain calm filled lines world
  have within : 0 < p.driver.budget := Nat.lt_of_lt_of_le (by decide) budget
  obtain ⟨count, valid, quiet, given⟩ := told (few.mpr (clean ▸ within))
  have all_valid : f.all Config.isValid = true := (Tree.all_valid_iff f).mpr clean
  have none : parsed.parser.driver.lastReport.errors = 0 := count.trans clean
  refine ⟨punctual.inOrder, valid.mpr all_valid, none, quiet none, fun accepting => ?_⟩
  have made := congrArg (List.map Config.Call.saying) (given accepting)
  rw [List.map_map, Config.allCalls, List.map_append, said, d.sayings_lines, all_valid] at made
  exact made

/-- A quoted value with a comment in it, an empty value, a section without settings and one with a
key alone. -/
theorem parse_printed_quoted :
    let p := Config.Parser.build { alnumNames := true, quotedValues := true }
    let l : Config.Layout := { beforeAssign := [0x20], afterAssign := [0x09] }
    let d : Config.Document := {
      globals := [⟨[0x6B], some (.quoted [0x20, 0x3B])⟩, ⟨[0x5F], some (.bare [])⟩]
      sections := [⟨[0x73], []⟩, ⟨[0x74], [⟨[0x6E, 0x31], none⟩]⟩] }
    p.driver.busy = false ∧ leastBudget ≤ p.driver.budget ∧ p.policy.Punctual ∧ l.Blank ∧
    d.Fits p.policy ∧ Config.Client.deaf.Calm ∧ Config.Client.deaf.Accepting ∧
    (p.parse (d.print p.policy l).toArray .deaf ()).outcome = .ok .allValid ∧
    (p.parse (d.print p.policy l).toArray Config.Client.deaf.logged
        { world := () }).world.calls.map (·.given.saying) =
      [.globalKey [0x6B] (some [0x20, 0x3B]), .globalKey [0x5F] (some []), .sectionName [0x73],
        .sectionName [0x74], .sectionKey [0x6E, 0x31] none, .done true] := by
  intro p l d
  have punctual : p.policy.Punctual :=
    ⟨rfl, by decide +kernel, by decide +kernel, by decide +kernel⟩
  have blank : l.Blank :=
    ⟨by decide +kernel, by decide +kernel, by decide +kernel, by decide +kernel⟩
  have fits : d.Fits p.policy := by decide +kernel
  have accepting : Config.Client.deaf.Accepting := fun _ _ _ => rfl
  obtain ⟨-, valid, -, -, calls⟩ := parse_printed p l d .deaf () rfl (by decide) punctual blank fits
    Config.Parser.deaf_calm
  exact ⟨rfl, by decide, punctual, blank, fits, Config.Parser.deaf_calm, accepting, valid,
    calls accepting⟩

end Backtrack
