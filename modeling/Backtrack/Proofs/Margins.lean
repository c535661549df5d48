import Backtrack.Proofs.Comments
import Backtrack.Proofs.Headers

/-! Where names, keys and values begin. The blanks before them are taken as far as they go, before a
line, behind a section start and on either side of an assignment, and so none is left where the text
itself begins. -/
namespace Backtrack.Config

open Grammar

/-- No blank stands there. -/
def NoBlankAt (input : Bytes) (pos : Nat) : Prop := ∀ b ∈ input[pos]?, Span.isBlank b = false

section Places

variable {p : Policy} {input : Bytes} {pos next : Nat}

/-- Where a repetition ends that takes every blank, there is none. -/
theorem noBlankAt_of_many {a : ConfigRule}
    (takes : ∀ i, Recognizes input (.set .blank : ConfigRule) i (some (i + 1)) →
      Recognizes input a i (some (i + 1)))
    (eaten : Recognizes input (.many a) pos (some next)) : NoBlankAt input next := by
  intro b here
  by_contra blank
  obtain ⟨m, last, ends⟩ := eaten.many_stops
  have member : CharSet.blank.contains b = true := (blank_iff b).mpr (by simpa using blank)
  have more : Recognizes input (.set .blank : ConfigRule) next (some (next + 1)) :=
    Recognizes.set_iff.mpr (by simp [Option.mem_def.mp here, member])
  obtain rfl := last.unique (takes next more)
  simp at ends

theorem blanks_end (eaten : Recognizes input blanks pos (some next)) : NoBlankAt input next :=
  noBlankAt_of_many (fun _ more => more) eaten

theorem spacing_end (eaten : Recognizes input spacing pos (some next)) : NoBlankAt input next :=
  noBlankAt_of_many (fun _ more => .choiceLeft more) eaten

theorem assignment_end (assigned : Recognizes input (assignment p) pos (some next)) :
    NoBlankAt input next := by
  obtain ⟨_, -, behind⟩ := Recognizes.seq_some_iff.mp assigned
  exact blanks_end behind

theorem headerStart_end (begun : Recognizes input (headerStart p) pos (some next)) :
    NoBlankAt input next := by
  obtain ⟨_, -, behind⟩ := Recognizes.seq_some_iff.mp begun
  exact blanks_end behind

end Places

/-- What may stand at the top of the journal of a file: a name or a pair, which begin where there is
no blank, or a defect. -/
inductive Aligned (p : Policy) (source : Source) (stop : Nat) (tree : Tree Action) : Prop
  | name {pos next} : pos ≤ (inputUpTo source stop).length →
      NoBlankAt (inputUpTo source stop) pos →
      Derives source stop (.action (sectionName p) .sectionName) pos next [tree] →
      Aligned p source stop tree
  | pair {pos next} : pos ≤ (inputUpTo source stop).length →
      NoBlankAt (inputUpTo source stop) pos → Derives source stop (keyValue p) pos next [tree] →
      Aligned p source stop tree
  | defect : tree.action = .invalid → Aligned p source stop tree

section Journal

variable {p : Policy} {source : Source} {stop pos next : Nat} {forest : List (Tree Action)}
  {tree : Tree Action}

theorem defect_of_marks {rule : ConfigRule} (derives : Derives source stop rule pos next forest)
    (only : ∀ act ∈ rule.marks, act = .invalid) : ∀ tree ∈ forest, Aligned p source stop tree :=
  fun tree member => .defect (only _ (derives.action_mem tree member))

theorem header_aligned (inside : pos ≤ (inputUpTo source stop).length)
    (derives : Derives source stop (sectionHeader p) pos next forest) :
    ∀ tree ∈ forest, Aligned p source stop tree := by
  rw [sectionHeader_eq] at derives
  obtain ⟨mid, _, _, begins, either, rfl⟩ := Derives.seq_iff.mp derives
  obtain rfl := begins.unmarked rfl
  have begun := Recognizes.effect_iff.mp begins.recognizes
  obtain named | ⟨-, skipped⟩ := Derives.choice_iff.mp either
  · obtain ⟨_, names, _, name, ends, rfl⟩ := Derives.seq_iff.mp named
    obtain rfl := ends.unmarked rfl
    have name : Derives source stop (.action (sectionName p) .sectionName) mid _ names :=
      Derives.effect_iff.mp (Derives.effect_iff.mp name)
    obtain ⟨span, _, -, -, -, -, rfl⟩ := Derives.action_iff.mp name
    rw [List.append_nil]
    exact List.forall_mem_singleton.mpr
      (.name (begun.advances inside).2 (headerStart_end begun) name)
  · exact defect_of_marks skipped (by simp [Rule.marks, Rule.pop])

theorem content_aligned (inside : pos ≤ (inputUpTo source stop).length)
    (clear : NoBlankAt (inputUpTo source stop) pos)
    (derives : Derives source stop (content p) pos next forest) :
    ∀ tree ∈ forest, Aligned p source stop tree := by
  obtain read | ⟨-, bad⟩ := Derives.choice_iff.mp derives
  · obtain read | ⟨-, pair⟩ := Derives.choice_iff.mp read
    · obtain comment | ⟨-, header⟩ := Derives.choice_iff.mp read
      · refine defect_of_marks comment ?_
        simp [Rule.marks, blockComment, lineComment, Rule.text, Rule.push, Rule.prepare,
          Rule.cancel, Rule.pop, blanks, text, endOfLine, Rule.byte]
      · exact header_aligned inside header
    · obtain ⟨span, parts, -, -, -, -, rfl⟩ := Derives.action_iff.mp pair
      exact List.forall_mem_singleton.mpr (.pair inside clear pair)
  · exact defect_of_marks bad (by simp [badLine, Rule.marks, Rule.sendNow])

/-- Behind a line there is no blank, and so the next one begins without. -/
theorem line_aligned (inside : pos ≤ (inputUpTo source stop).length)
    (clear : NoBlankAt (inputUpTo source stop) pos)
    (derives : Derives source stop (line p) pos next forest) :
    (∀ tree ∈ forest, Aligned p source stop tree) ∧ next ≤ (inputUpTo source stop).length ∧
      NoBlankAt (inputUpTo source stop) next := by
  have within := (derives.recognizes.advances inside).2
  rw [line_eq] at derives
  obtain ⟨_, trees, _, here, spaces, rfl⟩ := Derives.seq_iff.mp derives
  obtain rfl := spaces.unmarked rfl
  rw [List.append_nil]
  exact ⟨content_aligned inside clear here, within, spacing_end spaces.recognizes⟩

theorem lines_aligned (inside : pos ≤ (inputUpTo source stop).length)
    (clear : NoBlankAt (inputUpTo source stop) pos)
    (derives : Derives source stop (.many (line p)) pos next forest) :
    ∀ tree ∈ forest, Aligned p source stop tree := by
  generalize repeated : Rule.many (line p) = rule at derives
  induction derives with
  | manyFail => nofun
  | manyEmpty once =>
    cases repeated
    exact (line_aligned inside clear once).1
  | manyNext once _ _ _ ih =>
    cases repeated
    obtain ⟨first, within, behind⟩ := line_aligned inside clear once
    exact List.forall_mem_append.mpr ⟨first, ih within behind rfl⟩
  | leaf found =>
    subst repeated
    simp [Rule.leaf?] at found
  | _ => cases repeated

/-- The names and the pairs in the journal of a file begin where there is no blank. -/
theorem root_aligned (inside : pos ≤ (inputUpTo source stop).length)
    (derives : Derives source stop (root p) pos next forest) :
    ∀ tree ∈ forest, Aligned p source stop tree := by
  rw [root_eq] at derives
  obtain ⟨_, _, _, body, last, rfl⟩ := Derives.seq_iff.mp derives
  obtain ⟨first, _, trees, spaces, lines, rfl⟩ := Derives.seq_iff.mp body
  obtain rfl := spaces.unmarked rfl
  obtain rfl := last.unmarked rfl
  rw [List.append_nil, List.nil_append]
  have spaced := spaces.recognizes
  exact lines_aligned (spaced.advances inside).2 (spacing_end spaced) lines

/-- The pairs in the journal of a file are derived as pairs. -/
theorem Aligned.keyValue (aligned : Aligned p source stop tree) (named : tree.action = .keyValue) :
    ∃ pos next, pos ≤ (inputUpTo source stop).length ∧ NoBlankAt (inputUpTo source stop) pos ∧
      Derives source stop (Grammar.keyValue p) pos next [tree] := by
  cases aligned with
  | name _ _ name =>
    obtain ⟨_, _, -, -, -, -, same⟩ := Derives.action_iff.mp name
    obtain rfl := List.singleton_inj.mp same
    cases named
  | pair inside clear pair => exact ⟨_, _, inside, clear, pair⟩
  | defect other => cases named.symm.trans other

theorem Aligned.sectionName (aligned : Aligned p source stop tree)
    (named : tree.action = .sectionName) :
    ∃ pos next, pos ≤ (inputUpTo source stop).length ∧ NoBlankAt (inputUpTo source stop) pos ∧
      Derives source stop (.action (Grammar.sectionName p) .sectionName) pos next [tree] := by
  cases aligned with
  | name inside clear name => exact ⟨_, _, inside, clear, name⟩
  | pair _ _ pair =>
    obtain ⟨_, _, -, -, -, -, same⟩ := Derives.action_iff.mp pair
    obtain rfl := List.singleton_inj.mp same
    cases named
  | defect other => cases named.symm.trans other

end Journal
end Backtrack.Config
