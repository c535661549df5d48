import Backtrack.Proofs.Dictation
import Backtrack.Proofs.Exclusion
import Backtrack.Proofs.PrintedLines

/-! Section headers. A header is complete, or its name is not closed, or it has no name, and what is
left of it is skipped. What it sends and the scope that it leaves behind depend on which of these it
is. The name of an unfinished header stays the scope, as long as there was one to take the place
of. -/
namespace Backtrack

variable {σ α : Type}

section Steps

variable {subject : Subject σ} {a : Rule α} {e : Effect} {pos next : Nat} {s s' : Matching σ α}
  {t : List (Performance σ)} {m : Option Nat}

theorem Pending.abandonFrom_level {p : Pending} {depth start : Nat}
    (level : p.stack.size ≤ depth) : p.abandonFrom depth start = p := if_pos level

theorem Diagnostics.settle_same {d e : Diagnostics σ}
    (same : e.pending.abandoned.size = d.pending.abandoned.size) : e.settle d.mark = e := by
  simp [settle, mark, ← same, Array.shrink_eq_take]

/-- An effect abandons nothing, and forgets nothing that is. -/
theorem Diagnostics.apply_abandoned {monitor : Monitor σ} {span : Span} {d d' : Diagnostics σ}
    (done : apply monitor e span d = .ok () d') :
    d'.pending.abandoned.size = d.pending.abandoned.size := by
  rw [(apply_ok done).1]
  cases e with
  | popAbandoned => exact (Pending.claimed_same ..).2
  | _ => rfl

/-- An effect that is performed inside the source acts on just the span that was matched. -/
theorem Performance.outcome_inside {p : Performance σ} (ordered : p.start ≤ p.stop)
    (inside : p.stop ≤ subject.source.size) :
    ∃ span : Span, span.source = subject.source ∧ span.start = p.start ∧ span.stop = p.stop ∧
      p.outcome subject = Diagnostics.apply subject.monitor p.effect span p.state := by
  refine ⟨Span.clamp subject.source p.start p.stop, rfl, ?_, Nat.min_eq_left inside, ?_⟩
  · simp [Span.clamp, Nat.min_eq_left inside, Nat.min_eq_left ordered]
  · rw [outcome, Span.between, if_pos ordered]

/-- An effect on a rule without effects of its own. -/
theorem Evaluates.lone_effect_none (plain : a.Effectless)
    (h : Evaluates subject .attempt (.effect a e) false pos s t (.ok none s')) :
    Recognizes subject.input a pos none ∧ s'.diagnostics = s.diagnostics := by
  obtain ⟨s₁, part, rewound⟩ := h.effect_none
  have same := (part.effectless plain).2 _ _ rfl
  exact ⟨part.recognizes, by rw [rewound, same, Diagnostics.rewind_mark]⟩

theorem Evaluates.lone_effect_some (bounded : subject.Bounded) (inside : pos ≤ subject.stop)
    (plain : a.Effectless)
    (h : Evaluates subject .attempt (.effect a e) false pos s t (.ok (some next) s')) :
    Recognizes subject.input a pos (some next) ∧ next ≤ subject.stop ∧
    t = [⟨e, pos, next, s.diagnostics⟩] ∧
    ∃ span : Span, span.source = subject.source ∧ span.start = pos ∧ span.stop = next ∧
      Diagnostics.apply subject.monitor e span s.diagnostics = .ok () s'.diagnostics := by
  obtain ⟨s₁, u, d, part, rfl, done, settled⟩ := h.effect_some
  obtain ⟨rfl, same⟩ := part.effectless plain
  have same := same _ _ rfl
  obtain ⟨ordered, within⟩ := part.onward bounded inside
  obtain ⟨span, inSource, start, stop, applied⟩ := Performance.outcome_inside
    (p := ⟨e, pos, next, s₁.diagnostics⟩) ordered (Nat.le_trans within bounded)
  rw [applied, same] at done
  rw [Diagnostics.settle_same (Diagnostics.apply_abandoned done)] at settled
  refine ⟨part.recognizes, within, by rw [same]; rfl, span, inSource, start, stop, ?_⟩
  rw [settled]
  exact done

end Steps

namespace Config

open Grammar

/-- What is missing in a header without a name. -/
def noSectionName : Message := .major "Found start of section, but no section name."

/-- What is missing in a header with a name and no end. -/
def noSectionEnd : Message := .major "Found section name, but no end of section."

/-- What is said of a line that no rule reads. -/
def badContent : Message := .major "Could not parse contents."

/-- A section header as it was found. -/
inductive Heading where
  | complete (name : Span)
  /-- The end of the section start is missing. -/
  | unfinished (name : Span)
  | nameless

namespace Grammar

/-- The beginning of a header, up to its name. -/
def headerStart (p : Policy) : ConfigRule := .text p.sectionStart ++ blanks

/-- The name of a header, as the scope of what follows. -/
def headerName (p : Policy) : ConfigRule :=
  (((sectionName p).action .sectionName).replaceScope sectionScope).prepare noSectionEnd

/-- What closes a header behind its name. -/
def headerEnd (p : Policy) : ConfigRule := blanks ++ .text p.sectionEnd

/-- What is left of a header that is not complete. -/
def headerRest (p : Policy) : ConfigRule :=
  Rule.many (text \ .text p.sectionEnd) \ endOfLine ++ .optional endOfLine

theorem sectionHeader_eq (p : Policy) : sectionHeader p =
    .seq ((headerStart p).push noSectionName)
      (.choice
        (.seq (headerName p) ((headerEnd p).cancel))
        (((headerRest p).action .invalid).pop)) := rfl

end Grammar

/-- What a header lacks from its name on. -/
inductive Lacks (p : Policy) (source : Source) (input : Bytes) (mid : Nat) : Heading → Prop
  | unfinished {after} {name : Span} : Recognizes input (sectionName p) mid (some after) →
      name.source = source → name.start = mid → name.stop = after →
      Recognizes input (headerEnd p) after none → Lacks p source input mid (.unfinished name)
  | nameless : Recognizes input (sectionName p) mid none → Lacks p source input mid .nameless

/-- A header is found at `pos`, and with it the bytes up to `next`. -/
inductive Heads (p : Policy) (source : Source) (input : Bytes) (pos : Nat) : Heading → Nat → Prop
  | complete {mid after next} {name : Span} :
      Recognizes input (headerStart p) pos (some mid) →
      Recognizes input (sectionName p) mid (some after) →
      name.source = source → name.start = mid → name.stop = after →
      Recognizes input (headerEnd p) after (some next) →
      Heads p source input pos (.complete name) next
  | skipped {mid next heading} : Recognizes input (headerStart p) pos (some mid) →
      Lacks p source input mid heading → Recognizes input (headerRest p) mid (some next) →
      Heads p source input pos heading next

namespace Heading

/-- The one error of a header that is not complete. -/
def errors (lines : LineIndex) (pos : Nat) : Heading → List Notice
  | complete _ => []
  | unfinished name => [⟨noSectionEnd, lines.line name.start⟩]
  | nameless => [⟨noSectionName, lines.line pos⟩]

/-- The scopes behind the header. -/
def enter (lines : LineIndex) (crumbs : Breadcrumbs) : Heading → Breadcrumbs
  | complete name => crumbs.replace (crumb lines name)
  | unfinished name => (crumbs.replace (crumb lines name)).truncate crumbs.depth
  | nameless => crumbs
where
  crumb (lines : LineIndex) (name : Span) : Breadcrumb :=
    ⟨sectionScope, name.text, some (lines.position name.start)⟩

end Heading

section Evaluation

variable {p : Policy} {subject : Subject σ} {pos : Nat} {s s' : Matching σ Action}
  {t : List (Performance σ)} {m : Option Nat} {next : Nat}

theorem sectionName_effectless (p : Policy) : ((sectionName p).action .sectionName).Effectless := by
  unfold sectionName
  split <;> rfl

/-- A line break, and where it ends. -/
def LineBreak (input : Bytes) (pos next : Nat) : Prop :=
  input[pos]? = some 0x0A ∧ next = pos + 1 ∨
    input[pos]? = some 0x0D ∧ input[pos + 1]? = some 0x0A ∧ next = pos + 2

theorem endOfLine_matches {input : Bytes} {next : Nat}
    (broken : Recognizes input endOfLine pos (some next)) : LineBreak input pos next := by
  obtain ⟨mid, first, second⟩ := Recognizes.seq_some_iff.mp broken
  obtain ⟨b, fed, member, rfl⟩ := second.byte_of_set
  obtain rfl := (CharSet.contains_byte _ _).mp member
  obtain ⟨part, returns, reached⟩ := Recognizes.optional_iff.mp first
  cases part with
  | none =>
    cases reached
    exact .inl ⟨fed, rfl⟩
  | some after =>
    cases reached
    obtain ⟨c, here, member, rfl⟩ := returns.byte_of_set
    obtain rfl := (CharSet.contains_byte _ _).mp member
    exact .inr ⟨here, fed, rfl⟩

/-- A name begins with a printable byte. -/
theorem sectionName_begins {input : Bytes} {next : Nat}
    (named : Recognizes input (sectionName p) pos (some next)) :
    ∃ c, input[pos]? = some c ∧ IsPrintable c := by
  unfold sectionName at named
  split at named
  · obtain ⟨mid, first, -⟩ := Recognizes.seq_some_iff.mp named
    obtain ⟨c, here, member, -⟩ := first.byte_of_set
    have named := (contains_nameStart c).mp member
    unfold NameStart at named
    exact ⟨c, here, by unfold IsPrintable; grind⟩
  · obtain ⟨onward, each⟩ := named.many1_each
      (P := fun i => ∃ c, input[i]? = some c ∧ IsPrintable c) fun i k once => by
        obtain ⟨rfl, c, here, member⟩ := once.byte_of_difference
        exact ⟨rfl, c, here, (CharSet.contains_printable c).mp member⟩
    exact each pos (Nat.le_refl _) onward

/-- At a line break there is no name. -/
theorem sectionName_fails {input : Bytes} {far : Nat} (broken : LineBreak input pos far) :
    ∀ next, ¬ Recognizes input (sectionName p) pos (some next) := by
  intro next named
  obtain ⟨c, here, printable⟩ := sectionName_begins named
  unfold IsPrintable at printable
  obtain ⟨fed, -⟩ | ⟨returned, -, -⟩ := broken
  · cases here.symm.trans fed
    exact absurd printable (by decide)
  · cases here.symm.trans returned
    exact absurd printable (by decide)

theorem headerRest_fails {input : Bytes} (failed : Recognizes input (headerRest p) pos none) :
    ∃ far, Recognizes input endOfLine pos (some far) := by
  obtain ⟨first, -⟩ | ⟨_, -, rest⟩ := Recognizes.seq_iff.mp failed
  · obtain ⟨never, -⟩ | ⟨next, other, -, broken, stopped⟩ := Recognizes.difference_iff.mp first
    · exact never.not_many_none.elim
    · cases other with
      | none => cases stopped
      | some far => exact ⟨far, broken⟩
  · exact rest.not_optional_none.elim

/-- A message waits from the beginning of a header on. -/
theorem start_told (bounded : subject.Bounded) (inside : pos ≤ subject.stop)
    (h : Evaluates subject .attempt ((headerStart p).push noSectionName) false pos s t
      (.ok (some next) s')) :
    Recognizes subject.input (headerStart p) pos (some next) ∧ next ≤ subject.stop ∧
    noticesSent subject t = [] ∧ s'.diagnostics.crumbs = s.diagnostics.crumbs ∧
    s'.diagnostics.pending.stack.back? =
      some ⟨noSectionName, subject.monitor.lines.line pos⟩ := by
  have quiet := h.quiet (by rfl)
  obtain ⟨begins, within, -, span, -, first, -, pushed⟩ := h.lone_effect_some bounded inside (by rfl)
  have pushed := (EStateM.Result.ok.inj pushed).2
  rw [first] at pushed
  rw [← pushed]
  exact ⟨begins, within, quiet, rfl, by simp [Pending.push]⟩

/-- The name of a header takes the place of the scope, and the message about the missing name is
replaced by one about the missing end. -/
theorem name_told (bounded : subject.Bounded) (inside : pos ≤ subject.stop)
    (filled : 0 < s.diagnostics.pending.depth)
    (h : Evaluates subject .attempt (headerName p) false pos s t (.ok (some next) s')) :
    Recognizes subject.input (sectionName p) pos (some next) ∧ next ≤ subject.stop ∧
    ∃ name : Span, name.source = subject.source ∧ name.start = pos ∧ name.stop = next ∧
      s'.diagnostics = { s.diagnostics with
        pending := s.diagnostics.pending.pop.push ⟨noSectionEnd, subject.monitor.lines.line pos⟩
        crumbs := (Heading.complete name).enter subject.monitor.lines s.diagnostics.crumbs } := by
  obtain ⟨s₁, u, d, part, rfl, done, settled⟩ := h.effect_some
  obtain ⟨named, within, -, name, inSource, start, stop, replaced⟩ :=
    part.lone_effect_some bounded inside (sectionName_effectless p)
  obtain ⟨span, -, first, -, applied⟩ := Performance.outcome_inside
    (p := ⟨.prepare noSectionEnd, pos, next, s₁.diagnostics⟩) (part.onward bounded inside).1
    (Nat.le_trans within bounded)
  have renamed : s₁.diagnostics = { s.diagnostics with
      crumbs := (Heading.complete name).enter subject.monitor.lines s.diagnostics.crumbs } :=
    (EStateM.Result.ok.inj replaced).2.symm
  have filled : ¬ s₁.diagnostics.pending.depth = 0 := by
    rw [renamed]
    exact Nat.ne_of_gt filled
  rw [applied] at done
  simp only [Diagnostics.apply, if_neg filled] at done
  refine ⟨Recognizes.action_iff.mp named, within, name, inSource, start, stop, ?_⟩
  cases done
  rw [settled, Diagnostics.settle_same (by rw [renamed]; rfl), renamed, first]

theorem named_quiet (p : Policy) :
    (Rule.seq (headerName p) ((headerEnd p).cancel)).allEffects Effect.quiet = true := by
  unfold headerName sectionName
  split <;> rfl

/-- A name without an end, or no name. The message that waits says which. -/
theorem named_told_none (bounded : subject.Bounded) (inside : pos ≤ subject.stop) {start : Nat}
    (waits : s.diagnostics.pending.stack.back? =
      some ⟨noSectionName, subject.monitor.lines.line start⟩)
    (h : Evaluates subject .attempt (.seq (headerName p) ((headerEnd p).cancel)) false pos s t
      (.ok none s')) :
    ∃ heading entry, Lacks p subject.source subject.input pos heading ∧
      [entry.notice] = heading.errors subject.monitor.lines start ∧
      s'.diagnostics.pending.stack.back? = some entry ∧
      s'.diagnostics.crumbs = heading.enter subject.monitor.lines s.diagnostics.crumbs := by
  obtain ⟨s₁, first, rewound⟩ | ⟨after, s₁, u, v, s₂, first, last, rfl, rewound⟩ := h.seq_none
  · obtain ⟨s₂, part, rewound₂⟩ := first.effect_none
    obtain ⟨unnamed, same⟩ := part.lone_effect_none (sectionName_effectless p)
    rw [same, Diagnostics.rewind_mark] at rewound₂
    rw [rewound₂, Diagnostics.rewind_mark] at rewound
    rw [rewound]
    exact ⟨.nameless, _, .nameless (Recognizes.action_iff.mp unnamed), rfl, waits, rfl⟩
  · have filled : 0 < s.diagnostics.pending.stack.size := by
      rw [Array.back?_eq_getElem?] at waits
      exact Nat.zero_lt_of_lt (Array.getElem?_eq_some_iff.mp waits).1
    obtain ⟨named, -, name, inSource, begins, stop, renamed⟩ := name_told bounded inside filled first
    obtain ⟨unclosed, same⟩ := last.lone_effect_none (by rfl)
    rw [same, renamed, Diagnostics.rewind, Pending.abandonFrom_level] at rewound
    · rw [rewound]
      refine ⟨.unfinished name, ⟨noSectionEnd, subject.monitor.lines.line pos⟩,
        .unfinished named inSource begins stop unclosed, ?_, by simp [Pending.push], rfl⟩
      rw [Heading.errors, begins]
      rfl
    · simp only [Pending.push, Pending.pop, Array.size_push, Array.size_pop, Diagnostics.mark]
      omega

theorem named_told_some (bounded : subject.Bounded) (inside : pos ≤ subject.stop)
    (filled : 0 < s.diagnostics.pending.depth)
    (h : Evaluates subject .attempt (.seq (headerName p) ((headerEnd p).cancel)) false pos s t
      (.ok (some next) s')) :
    noticesSent subject t = [] ∧
    ∃ after, ∃ name : Span, Recognizes subject.input (sectionName p) pos (some after) ∧
      name.source = subject.source ∧ name.start = pos ∧ name.stop = after ∧
      Recognizes subject.input (headerEnd p) after (some next) ∧
      s'.diagnostics.crumbs =
        (Heading.complete name).enter subject.monitor.lines s.diagnostics.crumbs := by
  have sent := h.quiet (named_quiet p)
  obtain ⟨after, s₁, u, v, s₂, first, last, rfl, settled⟩ := h.seq_some
  obtain ⟨named, within, name, inSource, begins, stop, renamed⟩ :=
    name_told bounded inside filled first
  obtain ⟨closes, -, -, span, -, -, -, cancelled⟩ :=
    last.lone_effect_some bounded within (by rfl)
  have kept : s₂.diagnostics.crumbs = s₁.diagnostics.crumbs := by
    simp only [Diagnostics.apply] at cancelled
    split at cancelled
    · cases cancelled
    · rw [← (EStateM.Result.ok.inj cancelled).2]
  refine ⟨sent, after, name, named, inSource, begins, stop, closes, ?_⟩
  rw [settled, Diagnostics.settle, kept, renamed]

/-- What is left of a header is skipped, and the message that waits is sent. -/
theorem rest_told (bounded : subject.Bounded) (inside : pos ≤ subject.stop) {entry : Entry}
    (waits : s.diagnostics.pending.stack.back? = some entry)
    (h : Evaluates subject .attempt (((headerRest p).action .invalid).pop) false pos s t
      (.ok (some next) s')) :
    Recognizes subject.input (headerRest p) pos (some next) ∧
    noticesSent subject t = [entry.notice] ∧
    t.flatMap (·.packet subject) = s.diagnostics.crumbs.packet entry.notice ∧
    s'.diagnostics.crumbs = s.diagnostics.crumbs := by
  have onward := (h.onward bounded inside).1
  obtain ⟨skips, -, rfl, span, -, -, -, popped⟩ := h.lone_effect_some bounded inside (by rfl)
  have sent : Performance.sent? subject ⟨.pop, pos, next, s.diagnostics⟩ = some entry.notice := by
    simp [Performance.sent?, Span.between, onward, waits]
  simp only [Diagnostics.apply, waits] at popped
  refine ⟨Recognizes.action_iff.mp skips, ?_, ?_, (Diagnostics.send_ok popped).2⟩
  · simp [noticesSent, sent]
  · simp [Performance.packet, sent]

/-- A header that fails has touched no scope: it fails only at a line break, where there is no
name. -/
theorem header_told_none (bounded : subject.Bounded) (inside : pos ≤ subject.stop)
    (h : Evaluates subject .attempt (sectionHeader p) false pos s t (.ok none s')) :
    s'.diagnostics.crumbs = s.diagnostics.crumbs := by
  rw [sectionHeader_eq] at h
  obtain ⟨s₁, start, rewound⟩ | ⟨mid, s₁, u, v, s₂, start, rest, rfl, rewound⟩ := h.seq_none
  · rw [rewound, (start.lone_effect_none (by rfl)).2, Diagnostics.rewind_mark]
  obtain ⟨-, within, -, crumbs, waits⟩ := start_told bounded inside start
  obtain ⟨s₃, v, w, s₄, named, skip, rfl, rewound₂⟩ := rest.choice_none
  obtain ⟨heading, entry, lacks, -, -, entered⟩ := named_told_none bounded within waits named
  obtain ⟨stuck, same⟩ := skip.lone_effect_none (by rfl)
  obtain ⟨far, broken⟩ := headerRest_fails (Recognizes.action_iff.mp stuck)
  cases lacks with
  | unfinished named => exact absurd named (sectionName_fails (endOfLine_matches broken) _)
  | nameless =>
    have here : s₄.diagnostics.crumbs = s₁.diagnostics.crumbs := by rw [same, entered, Heading.enter]
    rw [rewound, Diagnostics.rewind_crumbs]
    rw [rewound₂, Diagnostics.rewind_crumbs here, crumbs]

/-- What a header sends, and the scopes behind it. -/
theorem header_told_some (bounded : subject.Bounded) (inside : pos ≤ subject.stop)
    (h : Evaluates subject .attempt (sectionHeader p) false pos s t (.ok (some next) s')) :
    ∃ heading, Heads p subject.source subject.input pos heading next ∧
      let crumbs := heading.enter subject.monitor.lines s.diagnostics.crumbs
      noticesSent subject t = heading.errors subject.monitor.lines pos ∧
      t.flatMap (·.packet subject) = (noticesSent subject t).flatMap crumbs.packet ∧
      s'.diagnostics.crumbs = crumbs := by
  rw [sectionHeader_eq] at h
  obtain ⟨mid, s₁, u, v, s₂, start, rest, rfl, settled⟩ := h.seq_some
  obtain ⟨begins, within, pushQuiet, crumbs, waits⟩ := start_told bounded inside start
  rw [(noticesSent_behind pushQuiet).1, (noticesSent_behind pushQuiet).2, settled,
    Diagnostics.settle, ← crumbs]
  obtain ⟨s₃, named, settled₂⟩ | ⟨s₃, v, w, s₄, named, skip, rfl, settled₂⟩ := rest.choice_some
  · -- The name and the end are there.
    have filled : 0 < s₁.diagnostics.pending.depth := by
      rw [Array.back?_eq_getElem?] at waits
      exact Nat.zero_lt_of_lt (Array.getElem?_eq_some_iff.mp waits).1
    obtain ⟨quiet, after, name, isName, inSource, start, stop, closes, entered⟩ :=
      named_told_some bounded within filled named
    rw [quiet, packets_of_quiet quiet, settled₂, Diagnostics.settle, entered]
    exact ⟨.complete name, .complete begins isName inSource start stop closes, rfl, rfl, rfl⟩
  · -- One of them is missing, and the rest is skipped.
    obtain ⟨heading, entry, lacks, error, waits', entered⟩ :=
      named_told_none bounded within waits named
    obtain ⟨skips, sent, packets, same⟩ := rest_told bounded within waits' skip
    have quiet := named.quiet (named_quiet p)
    rw [(noticesSent_behind quiet).1, (noticesSent_behind quiet).2, settled₂, Diagnostics.settle,
      sent, packets, same, entered]
    exact ⟨heading, .skipped begins lacks skips, error, (List.flatMap_singleton ..).symm, rfl⟩

end Evaluation
end Config
end Backtrack
