import Backtrack.Proofs.Scopes

/-! Headers that are not completed, in readable text. What is left of such a header is skipped up to
the end of its line, but also just up to a tab or to the end of a section start, and then what stands
behind is read as content. Right before a line break nothing is skipped: there the header is no
header at all, and its line is read by the rules that come next. -/
namespace Backtrack

variable {σ : Type}

namespace Config

open Grammar

/-- A header begins at `pos` and is not completed from `mid` on, where its name should stand. -/
structure BrokenHeader (p : Policy) (input : Bytes) (pos mid : Nat) : Prop where
  begins : Recognizes input (headerStart p) pos (some mid)
  broken : Recognizes input (.seq (sectionName p) (headerEnd p)) mid none

/-- Printable bytes from `pos` up to `next`, at none of which the end of a section start stands. -/
def SkippedRun (p : Policy) (input : Bytes) (pos next : Nat) : Prop :=
  pos ≤ next ∧ ∀ i, pos ≤ i → i < next →
    (∃ c, input[i]? = some c ∧ IsPrintable c) ∧ ¬ Text.utf8 p.sectionEnd <+: input.drop i

/-- Where skipping from `pos` ends. -/
inductive SkipsTo (p : Policy) (input : Bytes) (pos : Nat) : Nat → Prop
  | line {next stop} : SkippedRun p input pos next → LineBreak input next stop →
      SkipsTo p input pos stop
  | file : SkippedRun p input pos input.length → SkipsTo p input pos input.length
  | tab {stop} : SkippedRun p input pos stop → input[stop]? = some 0x09 → SkipsTo p input pos stop
  | sectionEnd {stop} : SkippedRun p input pos stop →
      Text.utf8 p.sectionEnd <+: input.drop stop → SkipsTo p input pos stop

/-- None of the calls shows a byte of the row. -/
def Undelivered (calls : List Call) (row : Row) : Prop :=
  ∀ call ∈ calls, ∀ span ∈ call.spans, span.stop ≤ row.start ∨ row.stop ≤ span.start

/-- A section start could begin a key. -/
def Policy.KeyLike (p : Policy) : Prop :=
  p.alnumNames = true ∧ ∃ b ∈ (Text.utf8 p.sectionStart).head?, NameStart b

/-- What becomes of a header in this row that is not completed. -/
inductive Recovers (p : Policy) (source : Source) (lines : LineIndex) (calls : List Call)
    (row : Row) (mid : Nat) : Prop
  /-- One error is sent, and what is left of the header is skipped. -/
  | skipped {heading} : Lacks p source source.toList mid heading →
      row.errors = heading.errors lines row.start → SkipsTo p source.toList mid row.stop →
      Undelivered calls row → Recovers p source lines calls row mid
  /-- Before a line break the line is no header, and bad content unless it is read as a key. -/
  | overlooked {next} : LineBreak source.toList mid next → row.heading = none →
      (¬ p.KeyLike → row.errors = [⟨badContent, lines.line row.start⟩] ∧ Undelivered calls row) →
      Recovers p source lines calls row mid

section Skipping

variable {p : Policy} {source : Source} {stop : Nat} {lines : LineIndex} {row : Row}
  {rows : List Row} {input : Bytes} {pos mid next : Nat}

theorem sectionEnd_eats (filled : p.Filled) :
    (Rule.text p.sectionEnd : ConfigRule).eats = true := by
  simp [Rule.eats, Rule.text, filled _ p.sectionEnd_mem]

/-- What is left of a header in readable text, up to where skipping ends. -/
theorem headerRest_skips (filled : p.Filled) (readable : Readable input)
    (inside : pos ≤ input.length) (skips : Recognizes input (headerRest p) pos (some next)) :
    SkipsTo p input pos next := by
  obtain ⟨after, first, last⟩ := Recognizes.seq_some_iff.mp skips
  obtain ⟨-, failed⟩ | ⟨_, other, run, -, kept⟩ := Recognizes.difference_iff.mp first
  · cases failed
  split at kept <;> cases kept
  obtain ⟨onward, clear⟩ := run.many_each fun _ _ once => once.clear (sectionEnd_eats filled)
  have skipped : SkippedRun p input pos after := by
    refine ⟨onward, fun i behind before => ?_⟩
    obtain ⟨⟨c, here, member⟩, noEnd⟩ := clear i behind before
    exact ⟨⟨c, here, (CharSet.contains_printable c).mp member⟩, Recognizes.literal_none_iff.mp noEnd⟩
  obtain ⟨part, broken, reached⟩ := Recognizes.optional_iff.mp last
  cases part with
  | some far =>
    cases reached
    exact .line skipped (endOfLine_matches broken)
  | none =>
    cases reached
    obtain ⟨unfed, unbroken⟩ := endOfLine_fails broken
    obtain unprinted | ⟨far, closes⟩ := run.stops inside
    · cases here : input[after]? with
      | none =>
        have atEnd : after = input.length := by
          have within := (run.advances inside).2
          have beyond := List.getElem?_eq_none_iff.mp here
          omega
        subst atEnd
        exact .file skipped
      | some c =>
        obtain printed | rfl | rfl | ⟨rfl, fed⟩ := readable after c here
        · exact absurd ((CharSet.contains_printable c).mpr printed) (unprinted c here)
        · exact .tab skipped here
        · exact absurd here unfed
        · exact absurd fed (unbroken here)
    · refine .sectionEnd skipped ?_
      by_contra absent
      cases closes.unique (Recognizes.literal_none_iff.mpr absent)

/-- Where a section start stands no key is read, unless it could be one. -/
theorem key_fails (filled : p.Filled) (inside : pos ≤ input.length) (unlike : ¬ p.KeyLike)
    (begins : Text.utf8 p.sectionStart <+: input.drop pos) :
    Recognizes input (key p) pos none := by
  obtain ⟨_ | next, reached⟩ := Recognizes.total input (key p) pos inside
  · exact reached
  exfalso
  have solid := filled _ p.sectionStart_mem
  unfold key at reached
  split at reached
  next restricted =>
    obtain ⟨after, first, -⟩ := Recognizes.seq_some_iff.mp reached
    obtain ⟨c, here, member, -⟩ := first.byte_of_set
    obtain ⟨more, stands⟩ := begins
    have same := congrArg (·[0]?) stands
    rw [List.getElem?_append_left (List.length_pos_iff.mpr solid), List.getElem?_drop,
      Nat.add_zero, here, ← List.head?_eq_getElem?] at same
    exact unlike ⟨restricted, c, same, (contains_nameStart c).mp member⟩
  next =>
    have eats : (Rule.choice (.text p.sectionStart) (assignment p) : ConfigRule).eats = true := by
      simp [Rule.eats, Rule.text, assignment, solid, filled _ p.assign_mem]
    obtain ⟨onward, clear⟩ := reached.many1_each fun _ _ once => once.clear eats
    have unbegun := (Recognizes.choice_none_iff.mp (clear pos (Nat.le_refl _) onward).2).1
    exact Recognizes.literal_none_iff.mp unbegun begins

theorem keyValue_fails (failed : Recognizes input (key p) pos none) :
    Recognizes input (keyValue p) pos none :=
  .action (.seqFail (.seqFail (.action failed)))

theorem Rows.nests (read : Rows p source stop lines pos rows)
    (inside : pos ≤ (inputUpTo source stop).length) :
    Nests source pos (rows.flatMap (·.forest)) (inputUpTo source stop).length := by
  induction read with
  | ends => exact .nil inside
  | more spaces reads _ ih =>
    have before := (spaces.advances inside).1
    have within := (reads.derives.recognizes.advances reads.inside).2
    exact ((reads.derives.nests reads.inside).append (ih within)).widen before

/-- Rows stand one behind another. -/
theorem Rows.onward (read : Rows p source stop lines pos rows)
    (inside : pos ≤ (inputUpTo source stop).length) : ∀ row ∈ rows, pos ≤ row.start := by
  induction read with
  | ends => nofun
  | @more _ first _ spaces reads _ ih =>
    have before := (spaces.advances inside).1
    have onward := reads.derives.recognizes.advances reads.inside
    refine List.forall_mem_cons.mpr ⟨before, fun row member => ?_⟩
    have behind := ih onward.2 row member
    omega

/-- A row that makes no call is in none. -/
theorem Rows.undelivered (read : Rows p source stop lines pos rows)
    (inside : pos ≤ (inputUpTo source stop).length) (member : row ∈ rows)
    (silent : ∀ inSection, calls p inSection row.forest = []) (inSection : Bool) :
    Undelivered (calls p inSection (rows.flatMap (·.forest))) row := by
  induction read generalizing inSection with
  | ends => cases member
  | @more _ first rest spaces reads later ih =>
    have within := (reads.derives.recognizes.advances reads.inside).2
    rw [List.flatMap_cons, calls_append]
    refine List.forall_mem_append.mpr ⟨fun call made span shown => ?_, ?_⟩
    · rcases List.mem_cons.mp member with rfl | member
      · rw [silent] at made
        cases made
      · have here := calls_inside (reads.derives.nests reads.inside) inSection call made span shown
        exact .inl (Nat.le_trans here.2.2 (later.onward within row member))
    · rcases List.mem_cons.mp member with rfl | member
      · intro call made span shown
        exact .inr (calls_inside (later.nests within) _ call made span shown).2.1
      · exact ih within member _

/-- What a row leaves in the journal that no rule reads. -/
theorem Row.Reads.strayed (reads : row.Reads p source stop lines)
    (uncommented : Recognizes (inputUpTo source stop) (comment p) row.start none)
    (unheaded : Recognizes (inputUpTo source stop) (sectionHeader p) row.start none)
    (unpaired : Recognizes (inputUpTo source stop) (keyValue p) row.start none) :
    ∃ span, row.forest = [.node .invalid span []] := by
  have read := reads.derives
  rw [content_eq] at read
  obtain left | ⟨-, bad⟩ := Derives.choice_iff.mp read
  · have failed : Recognizes (inputUpTo source stop) _ row.start none :=
      .choiceRight (.choiceRight uncommented unheaded) unpaired
    exact absurd failed left.not_fails
  · obtain ⟨span, g, skipped, -, -, -, forest⟩ := Derives.action_iff.mp bad
    obtain rfl := skipped.unmarked rfl
    exact ⟨span, forest⟩

/-- What becomes of a header that is not completed, where nothing is delivered of a row without
calls of its own. -/
theorem Row.Reads.recovers (filled : p.Filled) (readable : Readable source.toList)
    (reads : row.Reads p source source.size lines)
    (uncommented : Recognizes source.toList (comment p) row.start none)
    (broken : BrokenHeader p source.toList row.start mid) {made : List Call}
    (delivers : (∀ inSection, calls p inSection row.forest = []) → Undelivered made row) :
    Recovers p source lines made row mid := by
  have inside := reads.inside
  rw [inputUpTo_size] at inside
  have within := (broken.begins.advances inside).2
  cases found : row.heading with
  | some heading =>
    obtain ⟨-, heads, errors⟩ := reads.header heading found
    have leaves := reads.headed found
    rw [inputUpTo_size] at heads
    cases heads with
    | complete begins named _ _ _ closes =>
      cases begins.unique broken.begins
      cases (Recognizes.seq named closes).unique broken.broken
    | skipped begins lacks skips =>
      cases begins.unique broken.begins
      refine .skipped lacks errors (headerRest_skips filled readable within skips) (delivers ?_)
      obtain ⟨span, forest⟩ : ∃ span, row.forest = [.node .invalid span []] := by
        cases lacks <;> exact leaves
      exact fun inSection => forest ▸ rfl
  | none =>
    have headless := reads.headless found
    rw [inputUpTo_size] at headless
    obtain ⟨next, commented⟩ | unheaded := headless
    · cases commented.unique uncommented
    obtain ⟨unbegun, -⟩ | ⟨start, begins, rest⟩ := Recognizes.seq_iff.mp unheaded
    · cases (Recognizes.effect_iff.mp unbegun).unique broken.begins
    cases (Recognizes.effect_iff.mp begins).unique broken.begins
    have stuck := (Recognizes.choice_none_iff.mp rest).2
    obtain ⟨far, fed⟩ :=
      headerRest_fails (Recognizes.action_iff.mp (Recognizes.effect_iff.mp stuck))
    refine .overlooked (endOfLine_matches fed) found fun unlike => ?_
    have stands : Text.utf8 p.sectionStart <+: source.toList.drop row.start := by
      obtain ⟨_, mark, -⟩ := Recognizes.seq_some_iff.mp broken.begins
      by_contra absent
      cases mark.unique (Recognizes.literal_none_iff.mpr absent)
    have unpaired := keyValue_fails (key_fails filled inside unlike stands)
    rw [← inputUpTo_size] at uncommented unheaded unpaired
    obtain ⟨span, forest⟩ := reads.strayed uncommented unheaded unpaired
    exact ⟨reads.stray found uncommented unpaired, delivers fun inSection => forest ▸ rfl⟩

theorem Rows.reads_of_mem (read : Rows p source stop lines pos rows) :
    ∀ row ∈ rows, row.Reads p source stop lines := by
  induction read with
  | ends => nofun
  | more _ reads _ ih => exact List.forall_mem_cons.mpr ⟨reads, ih⟩

end Skipping
end Config

open Config in
/-- What becomes of section headers that are not completed, in a readable text that is parsed within
the budget. Each of them, wherever a header is looked for, either sends the one error that tells what
it lacks, is skipped, and shows no byte of what was skipped to the receiver; or it breaks off right
before a line break, where it is no header. Skipping ends behind the line break, but also before a
tab and before the end of a section start. -/
theorem parse_skips_headers (p : Config.Parser) (source : Source) (client : Config.Client σ)
    (world : σ) (idle : p.driver.busy = false) (inOrder : p.policy.validate = .ok ())
    (printable : p.policy.Printable) (solid : 0 < source.size) (readable : Readable source.toList)
    (calm : client.Calm) :
    let run := p.parse source client.logged { world }
    let lines := LineIndex.ofSource source
    run.parser.driver.lastReport.errors < p.driver.budget →
    ∃ rows, Rows p.policy source source.size lines 0 rows ∧
      UpToRefusal (transcript lines [] rows) run.world.messages ∧
      UpToRefusal (allCalls p.policy (rows.flatMap (·.forest))) run.world.calls ∧
      ∀ row ∈ rows, Recognizes source.toList (Grammar.comment p.policy) row.start none →
        ∀ mid, BrokenHeader p.policy source.toList row.start mid →
          Recovers p.policy source lines (run.world.calls.map (·.given)) row mid := by
  intro run lines within
  have plain := printable.plain inOrder
  obtain ⟨f, written⟩ : ∃ f, Grammar.FileLines p.policy source source.size 0 f :=
    plain.fileLines (by rwa [inputUpTo_size, List.drop_zero]) (Nat.zero_le _)
  have derives := plain.filled.root_iff.mpr ⟨rfl, written⟩
  rw [length_inputUpTo (Nat.le_refl _)] at derives
  obtain ⟨-, told⟩ := p.parse_derived idle calm solid (Nat.le_refl _) derives world
  have judged : run.outcome = .ok .allValid ∨ run.outcome = .ok .notValid := by
    have ended : run.outcome = _ := (told within).2.1
    rw [ended]
    split
    · exact .inl rfl
    · exact .inr rfl
  obtain ⟨rows, read, messages, called⟩ :=
    p.parse_transcript world idle plain.filled calm judged
  refine ⟨rows, read, messages, called, fun row member uncommented mid broken => ?_⟩
  refine (read.reads_of_mem row member).recovers plain.filled readable uncommented broken ?_
  intro silent call made span shown
  obtain ⟨e, given, rfl⟩ := List.mem_map.mp made
  rcases List.mem_append.mp (called.given_mem given) with among | last
  · exact read.undelivered (Nat.zero_le _) member silent false _ among span shown
  · rw [List.mem_singleton.mp last] at shown
    cases shown

/-- A header that ends before its name. -/
theorem Config.brokenHeader_nameless : Config.BrokenHeader {} (Text.utf8 "[]x\n") 0 1 := by
  let input := Text.utf8 "[]x\n"
  have start : Recognizes input (.text "[" : Config.ConfigRule) 0 (some 1) :=
    .leaf (by decide +kernel)
  have solid : Recognizes input (.set .blank : Config.ConfigRule) 1 none := .leaf (by decide +kernel)
  have printed : Recognizes input Config.Grammar.text 1 (some 2) := .leaf (by decide +kernel)
  have closes : Recognizes input (.text "]" : Config.ConfigRule) 1 (some 2) :=
    .leaf (by decide +kernel)
  have unnamed : Recognizes input (Config.Grammar.sectionName {}) 1 none :=
    .many1End (.difference printed (.choiceLeft closes)) (.inl rfl)
  exact ⟨.seq start (.manyEnd solid (.inl rfl)), .seqFail unnamed⟩

/-- A header without a name, and with content behind its end. -/
theorem parse_skips_headers_nameless :
    let p := Config.Parser.build {}
    let source : Source := (Text.utf8 "[]x\n").toArray
    let run := p.parse source Config.Client.deaf.logged { world := () }
    let lines := LineIndex.ofSource source
    p.driver.busy = false ∧ p.policy.validate = .ok () ∧ p.policy.Printable ∧ 0 < source.size ∧
    Readable source.toList ∧ Config.Client.deaf.Calm ∧
    run.parser.driver.lastReport.errors < p.driver.budget ∧
    ∃ rows row, Config.Rows p.policy source source.size lines 0 rows ∧ row ∈ rows ∧
      row.start = 0 ∧ Config.BrokenHeader p.policy source.toList row.start 1 ∧
      Config.Recovers p.policy source lines (run.world.calls.map (·.given)) row 1 := by
  intro p source run lines
  have inOrder : p.policy.validate = .ok () := by decide +kernel
  have printable : p.policy.Printable := by
    unfold Config.Policy.Printable
    decide +kernel
  have readable : Readable source.toList := .of_forall (by decide +kernel)
  have within : run.parser.driver.lastReport.errors < p.driver.budget := by decide +kernel
  obtain ⟨rows, read, -, -, recovered⟩ := parse_skips_headers p source .deaf () rfl inOrder printable
    (by decide) readable Config.Parser.deaf_calm within
  have unblank : Recognizes source.toList (.set .blank : Config.ConfigRule) 0 none :=
    .leaf (by decide +kernel)
  have unreturned : Recognizes source.toList (.byte 0x0D : Config.ConfigRule) 0 none :=
    .leaf (by decide +kernel)
  have unfed : Recognizes source.toList (.byte 0x0A : Config.ConfigRule) 0 none :=
    .leaf (by decide +kernel)
  have solid : Recognizes source.toList Config.Grammar.spacing 0 (some 0) :=
    .manyEnd (.choiceRight unblank (.seq (.optional unreturned) unfed)) (.inl rfl)
  have uncommented : Recognizes source.toList (Config.Grammar.comment p.policy) 0 none :=
    .choiceRight (.seqFail (.effect (.leaf (by decide +kernel))))
      (.seqFail (.seqFail (.leaf (by decide +kernel))))
  cases read with
  | ends spaces =>
    rw [inputUpTo_size] at spaces
    cases spaces.unique solid
  | @more _ row rows spaces reads rest =>
    rw [inputUpTo_size] at spaces
    have start : row.start = 0 := Option.some.inj (spaces.unique solid)
    have first : row ∈ row :: rows := List.mem_cons_self ..
    have broken : Config.BrokenHeader p.policy source.toList row.start 1 :=
      start.symm ▸ Config.brokenHeader_nameless
    exact ⟨rfl, inOrder, printable, by decide, readable, Config.Parser.deaf_calm, within,
      row :: rows, row, .more ((inputUpTo_size source).symm ▸ spaces) reads rest, first, start, broken,
      recovered row first (start.symm ▸ uncommented) 1 broken⟩

/-- What stands behind the end of a header without a name is delivered as a key. -/
theorem header_rest_delivered :
    let p := Config.Parser.build {}
    let source : Source := (Text.utf8 "[]x\n").toArray
    let run := p.parse source Config.Client.deaf.logged { world := () }
    p.policy.validate = .ok () ∧ p.policy.Printable ∧ Readable source.toList ∧
    run.parser.driver.lastReport.errors < p.driver.budget ∧
    Config.BrokenHeader p.policy source.toList 0 1 ∧
    ¬ ∀ e ∈ run.world.calls, ∀ span ∈ e.given.spans, span.stop ≤ 1 ∨ 3 ≤ span.start := by
  intro p source run
  have printable : p.policy.Printable := by
    unfold Config.Policy.Printable
    decide +kernel
  exact ⟨by decide +kernel, printable, .of_forall (by decide +kernel), by decide +kernel,
    Config.brokenHeader_nameless, by decide +kernel⟩

end Backtrack
