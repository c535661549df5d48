import Mathlib.Data.List.DropRight
import Backtrack.Proofs.Protocol

/-! Stripping the spans of config files. The grammar does not look at whether a parser strips, so
two parsers that differ in this alone take one course and replay one journal. Their calls differ in
the blanks behind names, keys and bare values: before these no blank is left to strip. -/
namespace Backtrack

variable {σ : Type}

/-- What was given in the exchange, and the reply. -/
def Exchange.told {π κ : Type} (e : Exchange π κ) : κ × Reply := (e.given, e.reply)

namespace Span

/-- The span is not empty and does not begin with a blank. -/
structure Firm (span : Span) : Prop where
  filled : span.bytes ≠ []
  unindented : span.Unindented

/-- The spans begin at one place, and the short one lacks the blanks at the end of the long one. -/
structure Stripped (long short : Span) : Prop where
  source : short.source = long.source
  start : short.start = long.start
  blanks : ∃ blanks : Bytes, (∀ b ∈ blanks, isBlank b = true) ∧ long.bytes = short.bytes ++ blanks
  last : ∀ b ∈ short.bytes.getLast?, isBlank b = false

variable {span long short : Span}

theorem Unindented.trimBlanks_bytes (unindented : span.Unindented) :
    span.trimBlanks.bytes = span.bytes.rdropWhile isBlank := by
  obtain ⟨-, -, -, stop⟩ := span.trimBlanks_ends
  have start := unindented.trimBlanks_start
  rw [unindented.kept] at stop
  have parts := List.rdropWhile_append_rtakeWhile (p := isBlank) (l := span.bytes)
  have length := congrArg List.length parts
  rw [List.length_append, length_bytes, List.rtakeWhile, List.length_reverse] at length
  have width : span.trimBlanks.size = (span.bytes.rdropWhile isBlank).length := by
    simp only [size] at length ⊢
    omega
  have same : span.trimBlanks.source = span.source := rfl
  calc span.trimBlanks.bytes
      = span.bytes.take span.trimBlanks.size := by
        rw [bytes_eq, bytes_eq, start, same, List.take_take, Nat.min_eq_left (by omega)]
    _ = span.bytes.rdropWhile isBlank := by
        rw [width]
        exact (List.prefix_iff_eq_take.mp (List.rdropWhile_prefix ..)).symm

/-- From a text that does not begin with a blank, only the blanks at its end are stripped. -/
theorem Unindented.stripped (unindented : span.Unindented) : span.Stripped span.trimBlanks where
  source := rfl
  start := unindented.trimBlanks_start
  blanks := by
    refine ⟨span.bytes.rtakeWhile isBlank, fun b member => List.mem_rtakeWhile_imp member, ?_⟩
    rw [unindented.trimBlanks_bytes, List.rdropWhile_append_rtakeWhile]
  last := by
    intro b here
    rw [unindented.trimBlanks_bytes] at here
    obtain ⟨filled, rfl⟩ := List.mem_getLast?_eq_getLast here
    simpa using List.rdropWhile_last_not isBlank span.bytes filled

theorem Stripped.unindented (stripped : long.Stripped short) (unindented : long.Unindented) :
    short.Unindented := by
  obtain ⟨blanks, -, parts⟩ := stripped.blanks
  intro b first
  exact unindented b (by rw [parts, List.head?_append, Option.mem_def.mp first]; rfl)

theorem Stripped.firm (stripped : long.Stripped short) (firm : long.Firm) : short.Firm where
  filled := by
    intro empty
    obtain ⟨blanks, blank, parts⟩ := stripped.blanks
    rw [empty, List.nil_append] at parts
    obtain ⟨b, rest, bytes⟩ := List.exists_cons_of_ne_nil firm.filled
    have solid := firm.unindented b (by simp [bytes])
    have loose := blank b (by simp [← parts, bytes])
    exact Bool.false_ne_true (solid.symm.trans loose)
  unindented := stripped.unindented firm.unindented

end Span

namespace Config

open Grammar

section Journal

variable {p : Policy} {source : Source} {stop pos next : Nat} {tree : Tree Action}
  {a : ConfigRule} {act : Action}

/-- What is marked where there is no blank does not begin with one. -/
theorem unindented_of_action (inside : pos ≤ (inputUpTo source stop).length)
    (clear : NoBlankAt (inputUpTo source stop) pos)
    (derives : Derives source stop (.action a act) pos next [tree]) :
    tree.span.start = pos ∧ tree.span.stop = next ∧ tree.span.Unindented := by
  obtain ⟨span, children, part, inSource, start, last, same⟩ := Derives.action_iff.mp derives
  obtain rfl := List.singleton_inj.mp same
  refine ⟨start, last, fun b first => clear b ?_⟩
  obtain ⟨filled, here⟩ := Span.byte_of_head first
  have within := (part.recognizes.advances inside).2
  have whole : inputUpTo source stop = source.toList.take stop := by
    simp [inputUpTo, List.extract_eq_take_drop]
  rw [whole, List.length_take] at within
  rw [Tree.span] at here filled
  rw [inSource, start] at here
  rw [whole, List.getElem?_take_of_lt (by omega)]
  exact here

theorem firm_of_action (eats : a.eats = true) (inside : pos ≤ (inputUpTo source stop).length)
    (clear : NoBlankAt (inputUpTo source stop) pos)
    (derives : Derives source stop (.action a act) pos next [tree]) : tree.span.Firm := by
  obtain ⟨start, last, unindented⟩ := unindented_of_action inside clear derives
  have wide := derives.recognizes.eats inside eats
  refine ⟨fun empty => ?_, unindented⟩
  have width := tree.span.length_bytes
  rw [empty, List.length_nil, Span.size] at width
  omega

theorem Aligned.firm (aligned : Aligned p source stop tree) (named : tree.action = .sectionName) :
    tree.span.Firm := by
  obtain ⟨pos, next, inside, clear, name⟩ := aligned.sectionName named
  exact firm_of_action (sectionName_eats p) inside clear name

/-- In a pair that begins where there is no blank, no blank stands before the key or before a bare
value. -/
theorem pair_unindented (inside : pos ≤ (inputUpTo source stop).length)
    (clear : NoBlankAt (inputUpTo source stop) pos)
    (derives : Derives source stop (keyValue p) pos next [tree]) :
    (∀ part ∈ tree.children, part.action = .key → part.span.Firm) ∧
      ∀ part ∈ tree.children, part.action = .value → part.span.Unindented := by
  refine ⟨fun part among named => ?_, fun part among named => ?_⟩
  · obtain ⟨_, name⟩ := key_of_pair derives among named
    exact firm_of_action (key_eats p) inside clear name
  · obtain ⟨_, first, _, name, assigned, value⟩ := bareValue_of_pair derives among named
    have within := (assigned.advances (name.advances inside).2).2
    exact (unindented_of_action within (assignment_end assigned) value).2.2

end Journal

section Reading

/-- The key of a pair. -/
def keyPart? (parts : List (Tree Action)) : Option (Tree Action) :=
  (parts.filter (·.action == .key)).getLast?

/-- The value of a pair, bare or quoted. -/
def valuePart? (parts : List (Tree Action)) : Option (Tree Action) :=
  (parts.filter fun part => part.action == .value || part.action == .quotedValue).getLast?

/-- A value as it is delivered. -/
def shownValue (p : Policy) (part : Tree Action) : Span :=
  if part.action = .quotedValue then part.span else trimmed p part.span

variable (p : Policy) (parts : List (Tree Action))

theorem filterMap_key? : parts.filterMap (key? p) =
    (parts.filter (·.action == .key)).map (trimmed p ·.span) := by
  induction parts with
  | nil => rfl
  | cons part parts ih => cases named : part.action <;> simp [key?, named, ih]

theorem filterMap_value? : parts.filterMap (value? p) =
    (parts.filter fun part => part.action == .value || part.action == .quotedValue).map
      (shownValue p) := by
  induction parts with
  | nil => rfl
  | cons part parts ih => cases named : part.action <;> simp [value?, shownValue, named, ih]

/-- Which parts are delivered does not depend on stripping. -/
theorem pair?_eq : pair? p parts =
    if parts.any (·.action == .unclosedQuote) then none
    else (keyPart? parts).map fun key =>
      (trimmed p key.span, (valuePart? parts).map (shownValue p)) := by
  unfold pair?
  rw [filterMap_key?, filterMap_value?, List.getLast?_map, List.getLast?_map, ← keyPart?,
    ← valuePart?]
  split
  · rfl
  · cases keyPart? parts <;> rfl

end Reading

/-- The value of a pair without stripping and with it. A bare value does not begin with a blank and
lacks the blanks at its end; a quoted value stays as it is. -/
inductive ValueStripped (parts : List (Tree Action)) : Option Span → Option Span → Prop
  | none : (∀ part ∈ parts, part.action ≠ .value ∧ part.action ≠ .quotedValue) →
      ValueStripped parts .none .none
  | bare {part short} : part ∈ parts → part.action = .value → part.span.Stripped short →
      part.span.Unindented → short.Unindented → ValueStripped parts (some part.span) (some short)
  | quoted {part} : part ∈ parts → part.action = .quotedValue →
      ValueStripped parts (some part.span) (some part.span)

/-- A call without stripping and with it. Names and keys are not empty, do not begin with a blank and
lack the blanks at their end. Whether the value of a pair is quoted is told by the derivation of the
pair. -/
inductive Call.Stripped (p : Policy) (source : Source) (stop : Nat) : Call → Call → Prop
  | sectionName {long short} : long.Stripped short → long.Firm → short.Firm →
      Stripped p source stop (.sectionName long) (.sectionName short)
  | pair {pos next tree part short value value'} (inSection : Bool) :
      Derives source stop (keyValue p) pos next [tree] →
      part ∈ tree.children → part.action = .key → part.span.Stripped short → part.span.Firm →
      short.Firm → ValueStripped tree.children value value' →
      Stripped p source stop (.ofPair inSection (part.span, value))
        (.ofPair inSection (short, value'))
  | done (valid : Bool) : Stripped p source stop (.done valid) (.done valid)

section Calls

variable {p : Policy} {source : Source} {stop : Nat} {forest : List (Tree Action)}
  {tree : Tree Action}

theorem value_stripped {parts : List (Tree Action)}
    (bare : ∀ part ∈ parts, part.action = .value → part.span.Unindented) :
    ValueStripped parts ((valuePart? parts).map (shownValue { p with trim := false }))
      ((valuePart? parts).map (shownValue { p with trim := true })) := by
  cases found : valuePart? parts with
  | none =>
    refine .none fun part among => ?_
    simpa using List.filter_eq_nil_iff.mp (List.getLast?_eq_none_iff.mp found) part among
  | some part =>
    obtain ⟨among, named⟩ := List.mem_filter.mp (List.mem_of_getLast? found)
    simp only [Bool.or_eq_true, beq_iff_eq] at named
    rcases named with named | named <;>
      simp only [Option.map_some, shownValue, named, reduceCtorEq, if_false, if_true]
    · have unindented := bare part among named
      have stripped := unindented.stripped
      exact .bare among named stripped unindented (stripped.unindented unindented)
    · exact .quoted among named

/-- What is read from a pair without stripping and with it. -/
theorem pair_stripped {pos next : Nat} (inside : pos ≤ (inputUpTo source stop).length)
    (clear : NoBlankAt (inputUpTo source stop) pos)
    (derives : Derives source stop (keyValue p) pos next [tree]) (inSection : Bool) :
    Option.Rel
      (fun pair pair' =>
        Call.Stripped p source stop (.ofPair inSection pair) (.ofPair inSection pair'))
      (pair? { p with trim := false } tree.children)
      (pair? { p with trim := true } tree.children) := by
  obtain ⟨keys, bare⟩ := pair_unindented inside clear derives
  rw [pair?_eq, pair?_eq]
  split
  · exact .none
  cases found : keyPart? tree.children with
  | none => exact .none
  | some part =>
    obtain ⟨among, named⟩ := List.mem_filter.mp (List.mem_of_getLast? found)
    have named : part.action = .key := by simpa using named
    have firm := keys part among named
    have stripped := firm.unindented.stripped
    exact .some (.pair inSection derives among named stripped firm (stripped.firm firm)
      (value_stripped bare))

theorem calls_stripped (aligned : ∀ tree ∈ forest, Aligned p source stop tree) (inSection : Bool) :
    List.Forall₂ (Call.Stripped p source stop) (calls { p with trim := false } inSection forest)
      (calls { p with trim := true } inSection forest) := by
  induction forest generalizing inSection with
  | nil => exact .nil
  | cons tree rest ih =>
    obtain ⟨here, behind⟩ := List.forall_mem_cons.mp aligned
    have rest := ih behind
    simp only [calls]
    cases named : tree.action with
    | sectionName =>
      have firm := here.firm named
      have stripped := firm.unindented.stripped
      exact .cons (.sectionName stripped firm (stripped.firm firm)) (rest true)
    | keyValue =>
      obtain ⟨_, _, inside, clear, derives⟩ := here.keyValue named
      have related := pair_stripped inside clear derives inSection
      generalize pair? { p with trim := false } tree.children = pair at related ⊢
      generalize pair? { p with trim := true } tree.children = pair' at related ⊢
      cases related with
      | none => exact rest inSection
      | some stripped => exact .cons stripped (rest inSection)
    | key | value | quotedValue | unclosedQuote | invalid => exact rest inSection

theorem allCalls_stripped (aligned : ∀ tree ∈ forest, Aligned p source stop tree) :
    List.Forall₂ (Call.Stripped p source stop) (allCalls { p with trim := false } forest)
      (allCalls { p with trim := true } forest) :=
  List.rel_append (calls_stripped aligned false) (.cons (.done _) .nil)

end Calls

section Messages

variable {π κ : Type} {sink : π → σ → Notice → σ × Reply} {shown shown' : π}

/-- Where the sink answers alike, it is told the same. -/
theorem hearAll_alike (alike : sink shown = sink shown') (notices : List Notice) (gone : Bool)
    {log log' : Log π κ σ} (worlds : log.world = log'.world)
    (told : log.messages.map Exchange.told = log'.messages.map Exchange.told) :
    (hearAll (Log.sink sink shown) (gone, log) notices).2.messages.map Exchange.told =
      (hearAll (Log.sink sink shown') (gone, log') notices).2.messages.map Exchange.told := by
  induction notices generalizing gone log log' with
  | nil => exact told
  | cons notice notices ih =>
    simp only [hearAll, List.foldl_cons] at ih ⊢
    cases gone with
    | true => exact ih true worlds told
    | false =>
      simp only [hear, Log.sink, Bool.false_eq_true, if_false, alike, worlds]
      rcases sink shown' log'.world notice with ⟨world, _ | _ | _⟩ <;>
        exact ih _ rfl (by simp [told, Exchange.told])

/-- The messages in the log are what the sink hears of the course. -/
theorem Parser.parse_messages (p : Parser) {client : Client σ} (calm : client.Calm)
    {course : Driver.Course Action} {source : Source} {start stop : Nat}
    (fits : course.Fits p.driver (root p.policy) source start stop (·.all isValid)) (world : σ) :
    (p.parseRange source start stop client.logged { world }).world.messages =
      (hearAll (client.logged.sink { p with driver := p.driver.inside }) (false, { world })
        course.messages).2.messages := by
  let shown : Parser := { p with driver := p.driver.inside }
  have sinks : (client.logged.besideFlag fun driver => { p with driver }).sink p.driver.inside =
      sinkBesideOwn (Log.sink client.sink shown) := rfl
  obtain ⟨_, part, last, rfl, parsed, -⟩ :=
    fits.logged sinks calm.sink (replay_logged calm shown) p.valid world
  exact congrArg (·.world.2.messages) parsed

end Messages

/-- The sink answers alike whatever parser it is shown, as long as that one takes no request. -/
def Client.Impartial (client : Client σ) : Prop :=
  ∀ q q' : Parser, q.Refuses → q'.Refuses → client.sink q = client.sink q'

/-- A refused request makes no call. -/
theorem Parser.refused_calls {p : Parser} {source : Source} {start stop : Nat}
    (refuses : p.driver.Refuses source start stop) (client : Client σ) (world : σ) :
    (p.parseRange source start stop client.logged { world }).world.calls = [] := by
  let host := client.logged.besideFlag fun driver => { p with driver }
  obtain ⟨_, -, -, same⟩ := refuses.parse_eq host (root p.policy) (p.valid, { world })
  exact congrArg (·.world.2.calls) same

end Config

open Config in
/-- Two parsers that differ only in whether they strip spans, and a receiver that takes every call.
They are left alike and answer the same. They send one stream of messages, which a sink that does
not mind which of the two it is shown answers alike. And they make the same calls but for the blanks
at the end of names, keys and bare values, none of which begins with a blank; names and keys are not
empty, and quoted values are the same. -/
theorem parse_strips_blanks (p : Config.Parser) (source : Source) (start stop : Nat)
    (client : Config.Client σ) (world : σ) (calm : client.Calm) (accepting : client.Accepting) :
    let parser (trim : Bool) : Config.Parser := { p with policy := { p.policy with trim } }
    let run (trim : Bool) := (parser trim).parseRange source start stop client.logged { world }
    let given (trim : Bool) := (run trim).world.calls.map (·.given)
    let told (trim : Bool) := (run trim).world.messages.map Exchange.told
    (∀ trim, (parser trim).parseRange source start stop client world =
      ⟨(run trim).parser, (run trim).world.world, (run trim).outcome⟩) ∧
    (∃ driver valid outcome messages, ∀ trim,
      (run trim).parser = { parser trim with driver, valid } ∧
      (run trim).outcome = .ok outcome ∧ UpToRefusal messages (run trim).world.messages) ∧
    (client.Impartial → told false = told true) ∧
    List.Forall₂ (Call.Stripped p.policy source stop) (given false) (given true) := by
  intro parser run given told
  refine ⟨fun trim => (parser trim).parse_logged source start stop client world, ?_⟩
  have balanced : (Grammar.root p.policy).Balanced := (Shipped.config p.policy).balanced
  -- one course for both, as neither the driver nor the root rule knows of stripping
  obtain ⟨course, fits, derives⟩ :=
    Driver.parse_fits balanced p.driver source start stop (·.all isValid)
  have fits (trim : Bool) : course.Fits (parser trim).driver (Grammar.root (parser trim).policy)
      source start stop (·.all isValid) := fits
  have ends (trim : Bool) := (parser trim).parse_log source start stop world calm (fits trim)
  refine ⟨⟨course.driver, course.forest?.elim p.valid (·.all isValid), course.outcome,
    course.messages, fun trim => ?_⟩, fun impartial => ?_, ?_⟩
  · obtain ⟨heard, _, _, parsed, stream, -⟩ := ends trim
    have ran : run trim = _ := parsed
    rw [ran]
    exact ⟨rfl, rfl, stream⟩
  · have refuses (trim : Bool) :
        Config.Parser.Refuses { parser trim with driver := p.driver.inside } :=
      Config.Parser.refuses_of_busy rfl
    have alike := impartial _ _ (refuses false) (refuses true)
    have heard (trim : Bool) := (parser trim).parse_messages calm (fits trim) world
    simp only [told, run, heard]
    exact hearAll_alike alike course.messages false rfl rfl
  by_cases refuses : p.driver.Refuses source start stop
  · have none (trim : Bool) : given trim = [] := by
      have none := Config.Parser.refused_calls (p := parser trim) refuses client world
      exact congrArg (List.map (·.given)) none
    rw [none, none]
    exact .nil
  have made (trim : Bool) :
      given trim = course.forest?.elim [] (allCalls (parser trim).policy) := by
    obtain ⟨_, part, _, parsed, -, calls, -, genuine⟩ := ends trim
    have ran : run trim = _ := parsed
    simp only [given, ran]
    exact calls.all_given fun e member => (genuine e member).not_refused accepting
  rw [made, made]
  cases replayed : course.forest? with
  | none => exact .nil
  | some forest =>
    obtain ⟨next, derives⟩ := derives forest replayed
    obtain ⟨ordered, inside⟩ := Driver.refuse?_none (Driver.not_refuses_iff.mp refuses).2
    rw [Nat.min_eq_left inside] at derives
    have length : (inputUpTo source stop).length = stop := by
      simpa [inputUpTo] using inside
    exact allCalls_stripped (root_aligned (length.symm ▸ Nat.le_of_lt ordered) derives)

/-- A name, a bare value and a key with blanks behind them, and a quoted value that begins and ends
with one. -/
theorem parse_strips_blanks_quoted :
    let p := Config.Parser.build { quotedValues := true }
    let source : Source := (Text.utf8 "[ s ]\nk =\tv \nq \t\nr=\" x \" \n").toArray
    let run (trim : Bool) := Config.Parser.parseRange { p with policy := { p.policy with trim } }
      source 0 source.size Config.Client.deaf.logged { world := () }
    let given (trim : Bool) := (run trim).world.calls.map (·.given)
    let ends (trim : Bool) :=
      ((given trim).flatMap Config.Call.spans).map fun span => (span.start, span.stop)
    Config.Client.deaf.Calm ∧ Config.Client.deaf.Accepting ∧
    ends false = [(2, 4), (6, 7), (10, 12), (13, 15), (17, 18), (20, 23)] ∧
    ends true = [(2, 3), (6, 7), (10, 11), (13, 14), (17, 18), (20, 23)] ∧
    List.Forall₂ (Config.Call.Stripped p.policy source source.size) (given false) (given true) := by
  intro p source run given ends
  have calm : Config.Client.deaf.Calm := Config.Parser.deaf_calm
  have accepting : Config.Client.deaf.Accepting := fun _ _ _ => rfl
  obtain ⟨-, -, -, stripped⟩ :=
    parse_strips_blanks p source 0 source.size .deaf () calm accepting
  exact ⟨calm, accepting, by decide +kernel, by decide +kernel, stripped⟩

end Backtrack
