import Mathlib.Data.List.TakeWhile
import Backtrack.Proofs.Comments
import Backtrack.Proofs.Rows

/-! Sections and the scopes of errors. A receiver is given the sections whose headers are complete.
The scope of an error is opened by the first of them; from then on every header with a name, complete
or not, takes its place. -/
namespace Backtrack

variable {σ : Type}

namespace Config

open Grammar

/-- The name in a header, complete or not. -/
def Row.name? (row : Row) : Option Span :=
  match row.heading with
  | some (.complete name) | some (.unfinished name) => some name
  | _ => none

/-- The section that begins with a row. -/
def Row.section? (row : Row) : Option Span :=
  match row.heading with
  | some (.complete name) => some name
  | _ => none

/-- The name of the scope behind these rows: the last name, from the first section on. -/
def scope (rows : List Row) : Option Span :=
  ((rows.dropWhile (·.section?.isNone)).filterMap Row.name?).getLast?

/-- An error as it is sent in a scope. -/
def introduced (lines : LineIndex) (scope : Option Span) (error : Notice) : List Notice :=
  match scope with
  | some name => [⟨⟨.content, (Heading.enter.crumb lines name).render, none⟩, error.line⟩, error]
  | none => [error]

/-- The messages for rows behind those that were seen. Errors are introduced by the scope behind the
rows before them; those of a header by the scope that it leaves. -/
def transcript (lines : LineIndex) (seen : List Row) : List Row → List Notice
  | [] => []
  | row :: rows =>
    let around := if row.heading.isSome then scope (seen ++ [row]) else scope seen
    row.errors.flatMap (introduced lines around) ++ transcript lines (seen ++ [row]) rows

section Scope

variable {lines : LineIndex} {rows seen : List Row} {row : Row}

theorem name?_of_section? {name : Span} (opens : row.section? = some name) :
    row.name? = some name := by
  unfold Row.section? at opens
  unfold Row.name?
  split at opens <;> simp_all

/-- There is a scope just if there is a section. -/
theorem scope_eq_none : scope rows = none ↔ ∀ row ∈ rows, row.section? = none := by
  induction rows with
  | nil => simp [scope]
  | cons row rows ih =>
    cases opens : row.section? with
    | none =>
      have same : scope (row :: rows) = scope rows := by simp [scope, opens]
      rw [same, ih, List.forall_mem_cons, and_iff_right opens]
    | some name =>
      have named := name?_of_section? opens
      simp [scope, opens, named, List.getLast?_cons]

theorem scope_snoc (seen : List Row) (row : Row) : scope (seen ++ [row]) =
    match row.heading with
    | some (.complete name) => some name
    | some (.unfinished name) => (scope seen).map fun _ => name
    | _ => scope seen := by
  cases before : seen.dropWhile (·.section?.isNone) with
  | nil =>
    have none : scope seen = none := by simp [scope, before]
    have last : scope (seen ++ [row]) = scope [row] := by
      simp [scope, List.dropWhile_append, before]
    rw [last, none]
    obtain ⟨_, _, _, heading, _⟩ := row
    rcases heading with _ | _ | _ | _ <;> rfl
  | cons first rest =>
    obtain ⟨last, opened⟩ : ∃ last, scope seen = some last := by
      refine Option.ne_none_iff_exists'.mp fun none => ?_
      have closed := List.dropWhile_eq_nil_iff.mpr fun row member =>
        Option.isNone_iff_eq_none.mpr (scope_eq_none.mp none row member)
      cases closed.symm.trans before
    have behind : scope (seen ++ [row]) = row.name?.or (scope seen) := by
      simp only [scope, List.dropWhile_append, before, List.isEmpty_cons, Bool.false_eq_true,
        if_false, List.filterMap_append, List.getLast?_append]
      cases named : row.name? <;> simp [named]
    rw [behind, opened]
    obtain ⟨_, _, _, heading, _⟩ := row
    rcases heading with _ | _ | _ | _ <;> rfl

/-- The open scopes where the scope has this name. -/
def crumbsOf (lines : LineIndex) (scope : Option Span) : Breadcrumbs :=
  ⟨(scope.map (Heading.enter.crumb lines)).toArray⟩

theorem enter_crumbsOf (seen : List Row) (row : Row) :
    row.enter lines (crumbsOf lines (scope seen)) = crumbsOf lines (scope (seen ++ [row])) := by
  rw [scope_snoc]
  obtain ⟨_, _, _, heading, _⟩ := row
  rcases heading with _ | name | name | _
  · rfl
  all_goals cases scope seen <;> rfl

theorem packet_crumbsOf {error : Notice} (isError : error.level.isError = true)
    (scope : Option Span) :
    (crumbsOf lines scope).packet error = introduced lines scope error := by
  cases scope with
  | none => simp [Breadcrumbs.packet, Breadcrumbs.introduction, isError, crumbsOf, introduced,
      Breadcrumbs.top?]
  | some name => exact Breadcrumbs.packet_of_scope isError rfl

/-- The scope behind a row without a header is the scope before it. -/
theorem scope_headless (headless : row.heading = none) : scope (seen ++ [row]) = scope seen := by
  rw [scope_snoc, headless]

theorem told_eq_transcript (errors : ∀ row ∈ rows, ∀ e ∈ row.errors, e.level.isError = true) :
    Row.told lines (crumbsOf lines (scope seen)) rows = transcript lines seen rows := by
  induction rows generalizing seen with
  | nil => rfl
  | cons row rows ih =>
    obtain ⟨here, later⟩ := List.forall_mem_cons.mp errors
    have around : scope (seen ++ [row]) =
        if row.heading.isSome then scope (seen ++ [row]) else scope seen := by
      split
      · rfl
      next headless => exact scope_headless (by simpa using headless)
    rw [Row.told, transcript, enter_crumbsOf, ih later, ← around]
    congr 1
    exact List.flatMap_congr fun e member => packet_crumbsOf (here e member) _

end Scope

section Sections

variable {p : Policy} {source : Source} {stop pos next : Nat} {f : List (Tree Action)}

def Call.section? : Call → Option Span
  | sectionName name => some name
  | _ => none

/-- The section that a tree names. -/
def sectionOf? (p : Policy) (tree : Tree Action) : Option Span :=
  match tree.action with
  | .sectionName => some (trimmed p tree.span)
  | _ => none

theorem calls_sections (f : List (Tree Action)) (inSection : Bool) :
    (calls p inSection f).filterMap Call.section? = f.filterMap (sectionOf? p) := by
  induction f generalizing inSection with
  | nil => rfl
  | cons tree rest ih =>
    rw [calls]
    cases named : tree.action with
    | sectionName => simp [Call.section?, sectionOf?, named, ih]
    | keyValue =>
      have pairless : sectionOf? p tree = none := by simp [sectionOf?, named]
      rw [List.filterMap_cons_none pairless, ← ih inSection]
      simp only
      split
      · cases inSection <;> rfl
      · rfl
    | _ => simp [sectionOf?, named, ih]

theorem sectionName_unmarked (p : Policy) : (sectionName p).unmarked = true := by
  unfold sectionName
  split <;> rfl

theorem Lacks.unnamed {input : Bytes} {mid : Nat} {heading : Heading}
    (lacks : Lacks p source input mid heading) :
    Recognizes input (.seq (headerName p) ((headerEnd p).cancel)) mid none := by
  cases lacks with
  | unfinished named _ _ _ unclosed =>
    exact .seq (.effect (.effect (.action named))) (.effect unclosed)
  | nameless unnamed => exact .seqFail (.effect (.effect (.action unnamed)))

/-- What a header leaves in the journal: its name, or a mark over what was skipped. -/
def Heading.Leaves : Heading → List (Tree Action) → Prop
  | complete name, f => f = [.node .sectionName name []]
  | _, f => ∃ span, f = [.node .invalid span []]

theorem Heads.derives {heading : Heading}
    (heads : Heads p source (inputUpTo source stop) pos heading next)
    (inside : pos ≤ (inputUpTo source stop).length) :
    ∃ f, Derives source stop (sectionHeader p) pos next f ∧ heading.Leaves f := by
  cases heads with
  | @complete mid after _ name begins named inSource start stops closes =>
    obtain ⟨_, opening⟩ := begins.derives inside
    obtain rfl := opening.unmarked rfl
    have within := (begins.advances inside).2
    obtain ⟨_, naming⟩ := named.derives within
    obtain rfl := naming.unmarked (sectionName_unmarked p)
    obtain ⟨_, closing⟩ := closes.derives (named.advances within).2
    obtain rfl := closing.unmarked rfl
    have marked : Derives source stop (.action (sectionName p) .sectionName) mid after
        [.node .sectionName name []] := .action naming inSource start stops
    exact ⟨_, .seq (.effect opening) (.choiceLeft (.seq (.effect (.effect marked))
      (.effect closing))), rfl⟩
  | @skipped mid _ _ begins lacks skips =>
    obtain ⟨_, opening⟩ := begins.derives inside
    obtain rfl := opening.unmarked rfl
    have marked : Recognizes (inputUpTo source stop) (.action (headerRest p) .invalid) mid
        (some next) := .action skips
    obtain ⟨_, skipping⟩ := marked.derives (begins.advances inside).2
    refine ⟨_, .seq (.effect opening) (.choiceRight lacks.unnamed (.effect skipping)), ?_⟩
    obtain ⟨span, g, rest, -, -, -, rfl⟩ := Derives.action_iff.mp skipping
    obtain rfl := rest.unmarked rfl
    cases lacks <;> exact ⟨span, rfl⟩

theorem Row.Reads.headed {lines : LineIndex} {row : Row} (reads : row.Reads p source stop lines)
    {heading : Heading} (found : row.heading = some heading) : heading.Leaves row.forest := by
  have read := reads.derives
  rw [content_eq] at read
  obtain ⟨uncommented, heads, -⟩ := reads.header heading found
  obtain ⟨f, derives, shape⟩ := heads.derives reads.inside
  rwa [(Derives.choiceLeft (.choiceLeft (.choiceRight uncommented derives))).unique read]

/-- A row without a header names no section. -/
theorem Row.Reads.unheaded {lines : LineIndex} {row : Row} (reads : row.Reads p source stop lines)
    (headless : row.heading = none) : row.forest.filterMap (sectionOf? p) = [] := by
  have nameless {rule : ConfigRule} (derives : Derives source stop rule row.start row.stop row.forest)
      (apart : .sectionName ∉ rule.marks) : row.forest.filterMap (sectionOf? p) = [] := by
    refine List.filterMap_eq_nil_iff.mpr fun tree member => ?_
    have named : tree.action ≠ .sectionName := fun named =>
      apart (named ▸ derives.action_mem tree member)
    cases action : tree.action <;> simp_all [sectionOf?]
  have read := reads.derives
  rw [content_eq] at read
  obtain left | ⟨-, bad⟩ := Derives.choice_iff.mp read
  · obtain first | ⟨-, pair⟩ := Derives.choice_iff.mp left
    · obtain comments | ⟨uncommented, header⟩ := Derives.choice_iff.mp first
      · exact nameless comments (by simp [comment, Rule.marks, lineComment, blockComment,
          Rule.text, Rule.push, Rule.prepare, Rule.pop, Rule.cancel, text, blanks, endOfLine,
          Rule.byte])
      · obtain ⟨next, commented⟩ | failed := reads.headless headless
        · cases commented.unique uncommented
        · exact absurd failed header.not_fails
    · exact nameless pair (by simp [keyValue, Rule.marks])
  · exact nameless bad (by simp [badLine, Rule.marks, Rule.sendNow])

/-- The journal of a row names the section that begins with it. -/
theorem Row.Reads.sections {lines : LineIndex} {row : Row}
    (reads : row.Reads p source stop lines) :
    row.forest.filterMap (sectionOf? p) = (row.section?.map (trimmed p)).toList := by
  cases found : row.heading with
  | none => simp [reads.unheaded found, Row.section?, found]
  | some heading =>
    have shape := reads.headed found
    cases heading with
    | complete name =>
      rw [show row.forest = _ from shape]
      simp [sectionOf?, Tree.action, Tree.span, Row.section?, found]
    | _ =>
      obtain ⟨span, forest⟩ := shape
      rw [forest]
      simp [sectionOf?, Tree.action, Row.section?, found]

/-- The sections that are delivered are those of the rows. -/
theorem Rows.sections {lines : LineIndex} {rows : List Row}
    (read : Rows p source stop lines pos rows) :
    (allCalls p (rows.flatMap (·.forest))).filterMap Call.section? =
      (rows.filterMap Row.section?).map (trimmed p) := by
  have named : (rows.flatMap (·.forest)).filterMap (sectionOf? p) =
      (rows.filterMap Row.section?).map (trimmed p) := by
    induction read with
    | ends => rfl
    | @more _ row _ _ reads _ ih =>
      rw [List.flatMap_cons, List.filterMap_append, reads.sections, ih]
      cases opens : row.section? <;> simp [opens]
  rw [allCalls, List.filterMap_append, calls_sections, named]
  exact List.append_nil _

theorem Rows.errors {lines : LineIndex} {rows : List Row}
    (read : Rows p source stop lines pos rows) :
    ∀ row ∈ rows, ∀ e ∈ row.errors, e.level.isError = true := by
  induction read with
  | ends => nofun
  | more _ reads _ ih => exact List.forall_mem_cons.mpr ⟨reads.errors, ih⟩

end Sections

/-- A parse that ends in a verdict has read the file in rows, and their transcript is what it
sends. -/
theorem Parser.parse_transcript (p : Parser) {source : Source} {client : Client σ} (world : σ)
    (idle : p.driver.busy = false) (filled : p.policy.Filled) (calm : client.Calm) :
    let run := p.parse source client.logged { world }
    let lines := LineIndex.ofSource source
    run.outcome = .ok .allValid ∨ run.outcome = .ok .notValid →
    ∃ rows, Rows p.policy source source.size lines 0 rows ∧
      UpToRefusal (transcript lines [] rows) run.world.messages ∧
      UpToRefusal (allCalls p.policy (rows.flatMap (·.forest))) run.world.calls := by
  intro run lines judged
  have returned : ∃ outcome, run.outcome = .ok outcome ∧
      (outcome = .allValid ∨ outcome = .notValid) := by
    obtain valid | invalid := judged
    · exact ⟨_, valid, .inl rfl⟩
    · exact ⟨_, invalid, .inr rfl⟩
  obtain ⟨outcome, returned, judged⟩ := returned
  obtain ⟨rows, read, told, called⟩ := p.parse_rows world idle filled calm returned judged
  have same : Row.told lines {} rows = transcript lines [] rows :=
    @told_eq_transcript lines rows [] read.errors
  exact ⟨rows, read, same ▸ told, called⟩

end Config

open Config in
/-- Errors and the sections they are in. A file that is read to its end consists of rows. The
sections that the receiver is given are those of the rows, and the sink is given the errors of the
rows, each behind the name of the scope it is in: the last name of a header, complete or not, from
the first section on. -/
theorem parse_breadcrumbs (p : Config.Parser) (source : Source) (client : Config.Client σ)
    (world : σ) (idle : p.driver.busy = false) (inOrder : p.policy.validate = .ok ())
    (calm : client.Calm) :
    let run := p.parse source client.logged { world }
    let lines := LineIndex.ofSource source
    run.outcome = .ok .allValid ∨ run.outcome = .ok .notValid →
    ∃ rows, Rows p.policy source source.size lines 0 rows ∧
      UpToRefusal (transcript lines [] rows) run.world.messages ∧
      UpToRefusal (allCalls p.policy (rows.flatMap (·.forest))) run.world.calls ∧
      (allCalls p.policy (rows.flatMap (·.forest))).filterMap Call.section? =
        (rows.filterMap Row.section?).map (trimmed p.policy) := by
  intro run lines judged
  obtain ⟨rows, read, told, called⟩ :=
    p.parse_transcript world idle (Policy.filled_of_validate inOrder) calm judged
  exact ⟨rows, read, told, called, read.sections⟩

/-- A section, an unfinished header and a line that no rule reads. -/
theorem parse_breadcrumbs_unfinished :
    let p := Config.Parser.build {}
    let source : Source := (Text.utf8 "[a]\n[b\n=\n").toArray
    let run := p.parse source Config.Client.deaf.logged { world := () }
    let lines := LineIndex.ofSource source
    let scope : Message := ⟨.content, "Inside config section for b on line 2 at char 2.", none⟩
    let told : List Notice := [⟨scope, 2⟩, ⟨Config.noSectionEnd, 2⟩, ⟨scope, 3⟩,
      ⟨.major "Could not parse contents.", 3⟩]
    p.driver.busy = false ∧ p.policy.validate = .ok () ∧ Config.Client.deaf.Calm ∧
    run.outcome = .ok .notValid ∧
    ∃ rows, Config.Rows p.policy source source.size lines 0 rows ∧
      Config.transcript lines [] rows = told ∧
      ((rows.filterMap Config.Row.section?).map (Config.trimmed p.policy)).map Span.bytes =
        [Text.utf8 "a"] := by
  intro p source run lines scope told
  have inOrder : p.policy.validate = .ok () := by decide +kernel
  have ended : run.outcome.toOption = some .notValid := by decide +kernel
  have given : run.world.messages.map (·.given) = told := by decide +kernel
  have named : ((run.world.calls.map (·.given)).filterMap Config.Call.section?).map Span.bytes =
      [Text.utf8 "a"] := by
    decide +kernel
  have kept : (∀ e ∈ run.world.messages, e.refused = false) ∧
      ∀ e ∈ run.world.calls, e.refused = false := by
    decide +kernel
  have outcome : run.outcome = .ok .notValid := by
    cases same : run.outcome <;> simp_all [Except.toOption]
  obtain ⟨rows, read, messages, calls, sections⟩ :=
    parse_breadcrumbs p source .deaf () rfl inOrder Config.Parser.deaf_calm (.inr outcome)
  refine ⟨rfl, inOrder, Config.Parser.deaf_calm, outcome, rows, read,
    (messages.all_given kept.1).symm.trans given, ?_⟩
  rw [calls.all_given kept.2, sections] at named
  exact named

/-- The error behind the unfinished header is not introduced by the only section there is. -/
theorem breadcrumb_of_unfinished_header :
    let p := Config.Parser.build {}
    let source : Source := (Text.utf8 "[a]\n[b\n=\n").toArray
    let run := p.parse source Config.Client.deaf.logged { world := () }
    let messages := run.world.messages.map (·.given)
    let error : Notice := ⟨.major "Could not parse contents.", 3⟩
    p.policy.validate = .ok () ∧
    ((run.world.calls.map (·.given)).filterMap Config.Call.section?).map Span.bytes =
      [Text.utf8 "a"] ∧
    error ∈ messages ∧
    ¬ [⟨⟨.content, "Inside config section for a on line 1 at char 2.", none⟩, 3⟩, error] <:+:
      messages := by
  intro p source run messages error
  exact ⟨by decide +kernel, by decide +kernel, by decide +kernel, by decide +kernel⟩

end Backtrack
