import Backtrack.Proofs.Callers
import Backtrack.Proofs.Refusal

/-! Callers do not sway a parse. Whatever the functions of a client refuse, and whatever parses they
request meanwhile, the parse ends as it does for a client that accepts everything, and the client is
given the same messages and calls up to its refusals. -/
namespace Backtrack

variable {π κ σ φ α : Type}

theorem hearAll_besideOwn (sink : σ → Notice → σ × Reply) (notices : List Notice) (own : φ)
    (caller : Bool × σ) :
    hearAll (sinkBesideOwn sink) (caller.1, own, caller.2) notices =
      ((hearAll sink caller notices).1, own, (hearAll sink caller notices).2) := by
  induction notices generalizing caller with
  | nil => rfl
  | cons notice notices ih =>
    obtain ⟨_ | _, world⟩ := caller
    · have step : hear (sinkBesideOwn sink) (false, own, world) notice =
          ((hear sink (false, world) notice).1, own, (hear sink (false, world) notice).2) := by
        simp only [hear, sinkBesideOwn, Bool.false_eq_true, if_false]
        rcases sink world notice with ⟨world', _ | _ | reason⟩ <;> rfl
      exact (congrArg (hearAll _ · notices) step).trans (ih _)
    · exact ih (true, world)

namespace Driver

variable {d : Driver} {rule : Rule α} {source : Source} {start stop : Nat}
  {verdict : List (Tree α) → Bool} {course : Course α}

/-- The log of a client over the course of a parse, where `Given` says which calls are made for a
journal. -/
theorem Course.Fits.logged (fits : course.Fits d rule source start stop verdict)
    {host : Host (φ × Log π κ σ) α} {sink : π → σ → Notice → σ × Reply} {shown : π}
    (sinks : host.sink d.inside = sinkBesideOwn (Log.sink sink shown))
    (calm : ∀ shown world notice reason, (sink shown world notice).2 ≠ .crash reason)
    {judged : φ → List (Tree α) → φ} {Given : List (Tree α) → List (Exchange π κ) → Prop}
    (replays : ∀ forest own log, ∃ part world, host.replay d.inside forest (own, log) =
      .ok (verdict forest) (judged own forest, ⟨log.messages, log.calls ++ part, world⟩) ∧
        Given forest part) (own : φ) (world : σ) :
    ∃ heard part last,
      heard = (hearAll (Log.sink sink shown) (false, ({ world } : Log π κ σ))
        course.messages).2.messages ∧
      d.parse host rule source start stop (own, { world }) =
        ⟨course.driver, (course.forest?.elim own (judged own), ⟨heard, part, last⟩),
          .ok course.outcome⟩ ∧
      UpToRefusal course.messages heard ∧ (∀ e ∈ heard, e.Genuine sink (· = shown)) ∧
      course.forest?.elim (part = []) (Given · part) := by
  have keeps (state : φ × Log π κ σ) (notice : Notice) (reason : String) :
      (host.sink d.inside state notice).2 ≠ .crash reason := by
    rw [sinks]
    exact calm shown state.2.world notice reason
  obtain ⟨after, takes, parsed⟩ := fits _ host keeps
    (fun forest state => by
      obtain ⟨part, world, replayed, -⟩ := replays forest state.1 state.2
      exact ⟨_, replayed⟩) (own, { world })
  obtain ⟨heard, messages, calls, stream, genuine⟩ :=
    hearAll_logged shown calm course.messages ({ world } : Log π κ σ)
  have told := hearAll_besideOwn (Log.sink sink shown) course.messages own
    (false, ({ world } : Log π κ σ))
  generalize hearAll (Log.sink sink shown) (false, { world }) course.messages = caller at *
  obtain ⟨detached, ⟨_, _, last⟩⟩ := caller
  obtain rfl : heard = _ := messages.symm
  obtain rfl : [] = _ := calls.symm
  unfold Takes at takes
  simp only [sinks, told] at takes
  cases replayed : course.forest? with
  | none =>
    simp only [replayed] at takes
    exact ⟨_, [], last, rfl, by rw [parsed, takes]; rfl, stream, genuine, rfl⟩
  | some forest =>
    simp only [replayed] at takes
    obtain ⟨valid, answer⟩ := takes
    obtain ⟨part, world', answer', given⟩ := replays forest own ⟨_, [], last⟩
    rw [answer'] at answer
    cases answer
    exact ⟨_, part, world', rfl, by rw [parsed]; rfl, stream, genuine, given⟩

end Driver

namespace Xml

/-- The functions of the client never give up. -/
structure Client.Calm (client : Client σ) : Prop where
  receiver : ∀ p world call reason, (client.receiver p world call).2 ≠ .crash reason
  sink : ∀ p world notice reason, (client.sink p world notice).2 ≠ .crash reason

/-- The client with a log. -/
def Client.logged (client : Client σ) : Client (Log Parser Call σ) :=
  ⟨Log.receiver client.receiver, Log.sink client.sink⟩

/-- The parser takes no request. -/
def Parser.Refuses (p : Parser) : Prop :=
  ∀ (σ : Type) (construct : Construct) (source : Source) (client : Client σ) (world : σ),
    p.parse construct source client world = ⟨p, world, .ok .parsingNow⟩

namespace Parser

theorem refuses_of_busy {p : Parser} (busy : p.driver.busy = true) : p.Refuses := by
  intro σ construct source client world
  rw [parse_eq, Driver.parse_busy busy]

variable (p : Parser) (construct : Construct) (source : Source) (client : Client σ) (world : σ)

/-- Keeping a log changes nothing. -/
theorem parse_logged :
    let run := p.parse construct source client.logged { world }
    p.parse construct source client world = ⟨run.parser, run.world.world, run.outcome⟩ := by
  intro run
  let shown (driver : Driver) : Parser := { p with driver }
  have replays (forest : List (Tree Action)) :
      Simulates (Prod.map id Log.world)
        (replay construct (client.logged.receiver (shown p.driver.inside)) forest)
        (replay construct (client.receiver (shown p.driver.inside)) forest) := by
    refine Simulates.bind (Simulates.besideOwn (items_simulates (fun _ _ => rfl) _ _)) fun _ => ?_
    rintro ⟨flags, log⟩
    rfl
  have same := Driver.parse_simulates (Prod.map id Log.world) p.driver
    (client.logged.besideFlags shown construct) (client.besideFlags shown construct)
    (fun _ _ => rfl) replays construct.rule source 0 source.size (p.valid, { world })
  exact congrArg (fun parsed : Backtrack.Parsed ((Construct → Bool) × σ) =>
    Parsed.mk ⟨parsed.driver, parsed.world.1⟩ parsed.world.2 parsed.outcome) same

theorem replay_logged {client : Client σ}
    (calm : ∀ p world call reason, (client.receiver p world call).2 ≠ .crash reason)
    (shown : Parser) (forest : List (Tree Action)) (flags : Construct → Bool)
    (log : Log Parser Call σ) :
    ∃ part world, replay construct (client.logged.receiver shown) forest (flags, log) =
        .ok (forest.all isValid) (setValid flags construct (forest.all isValid),
          ⟨log.messages, log.calls ++ part, world⟩) ∧
      Delivered (forest.flatMap construct.items) part ∧
      ∀ e ∈ part, e.Genuine client.receiver (· = shown) := by
  obtain ⟨part, world, delivery, made, delivered, genuine⟩ :=
    items_logged shown calm (forest.flatMap construct.items) log
  refine ⟨part, world, ?_, delivered, genuine⟩
  rw [replay, bind_apply]
  simp only [besideOwn, Client.logged, made]
  rfl

/-- The log of a calm client over the course of a parse. -/
theorem parse_log {client : Client σ} (calm : client.Calm) {course : Driver.Course Action}
    (fits : course.Fits p.driver construct.rule source 0 source.size (·.all isValid)) :
    ∃ heard part last,
      p.parse construct source client.logged { world } =
        ⟨⟨course.driver, course.forest?.elim p.valid fun forest =>
          setValid p.valid construct (forest.all isValid)⟩, ⟨heard, part, last⟩,
          .ok course.outcome⟩ ∧
      UpToRefusal course.messages heard ∧
      Delivered ((course.forest?.getD []).flatMap construct.items) part ∧
      (∀ e ∈ heard, e.Genuine client.sink (·.Refuses)) ∧
      ∀ e ∈ part, e.Genuine client.receiver (·.Refuses) := by
  let shown : Parser := { p with driver := p.driver.inside }
  have refuses (q : Parser) (same : q = shown) : q.Refuses := same ▸ refuses_of_busy rfl
  have sinks : (client.logged.besideFlags (fun driver => { p with driver }) construct).sink
      p.driver.inside = sinkBesideOwn (Log.sink client.sink shown) := rfl
  obtain ⟨heard, part, last, -, parsed, stream, genuine, given⟩ :=
    fits.logged sinks calm.sink (replay_logged construct calm.receiver shown) p.valid world
  refine ⟨heard, part, last, ?_, stream, ?_, fun e member => (genuine e member).mono refuses, ?_⟩
  · rw [parse_eq]
    simp only [parsed]
  · cases replayed : course.forest? with
    | none =>
      obtain rfl : part = [] := by simpa [replayed] using given
      exact .none
    | some forest =>
      simp only [replayed] at given
      exact given.1
  · intro e member
    cases replayed : course.forest? with
    | none =>
      obtain rfl : part = [] := by simpa [replayed] using given
      cases member
    | some forest =>
      simp only [replayed] at given
      exact (given.2 e member).mono refuses

theorem deaf_calm : Client.deaf.Calm := ⟨fun _ _ _ _ => nofun, fun _ _ _ _ => nofun⟩

/-- The course of the parse, and what the client that accepts everything is given. -/
theorem parse_free :
    ∃ course : Driver.Course Action,
      course.Fits p.driver construct.rule source 0 source.size (·.all isValid) ∧
      (∀ forest, course.forest? = some forest →
        ∃ next, Derives source source.size construct.rule 0 next forest) ∧
      let free := p.parse construct source Client.deaf.logged { world := () }
      free.world.messages.map (·.given) = course.messages ∧
      free.world.calls.map (·.given) =
        ((course.forest?.getD []).flatMap construct.items).flatMap Item.calls := by
  have balanced : construct.rule.Balanced := (Shipped.construct construct).balanced
  obtain ⟨course, fits, derives⟩ :=
    Driver.parse_fits balanced p.driver source 0 source.size (·.all isValid)
  refine ⟨course, fits, by simpa using derives, ?_⟩
  obtain ⟨heard, part, last, parsed, stream, delivered, messages, calls⟩ :=
    parse_log p construct source () deaf_calm fits
  rw [parsed]
  exact ⟨stream.all_given fun e member => (messages e member).not_refused fun _ _ _ => rfl,
    delivered.all_given fun e member => (calls e member).not_refused fun _ _ _ => rfl⟩

/-- A construct whose calls come in no blocks. -/
theorem items_plain {construct : Construct} (plain : construct ≠ .attributeList)
    (forest : List (Tree Action)) :
    ∃ stream : List Call, forest.flatMap construct.items = stream.map .call := by
  have each (tree : Tree Action) : ∃ stream : List Call, construct.items tree = stream.map .call := by
    cases construct <;> first | exact ⟨_, rfl⟩ | exact absurd rfl plain
  induction forest with
  | nil => exact ⟨[], rfl⟩
  | cons tree forest ih =>
    obtain ⟨first, here⟩ := each tree
    obtain ⟨rest, there⟩ := ih
    exact ⟨first ++ rest, by simp [here, there]⟩

/-- A parse beside the one in which everything is accepted. -/
theorem unswayed {client : Client σ} (calm : client.Calm) :
    let run := p.parse construct source client.logged { world }
    let free := p.parse construct source Client.deaf.logged { world := () }
    run.parser = free.parser ∧ run.outcome = free.outcome ∧
    (∃ outcome, run.outcome = .ok outcome) ∧
    (∀ e ∈ run.world.messages, e.shown.Refuses) ∧ (∀ e ∈ run.world.calls, e.shown.Refuses) ∧
    UpToRefusal (free.world.messages.map (·.given)) run.world.messages ∧
    (construct ≠ .attributeList →
      UpToRefusal (free.world.calls.map (·.given)) run.world.calls) ∧
    ∃ forest, (forest = [] ∨ ∃ next, Derives source source.size construct.rule 0 next forest) ∧
      free.world.calls.map (·.given) = (forest.flatMap construct.items).flatMap Item.calls ∧
      Delivered (forest.flatMap construct.items) run.world.calls := by
  intro run free
  obtain ⟨course, fits, derives, messages, calls⟩ := parse_free p construct source
  obtain ⟨heard, part, last, parsed, stream, delivered, genuine, genuine'⟩ :=
    parse_log p construct source world calm fits
  obtain ⟨heard', part', last', parsed', -⟩ :=
    parse_log p construct source () deaf_calm fits
  have run_eq : run = _ := parsed
  have free_eq : free = _ := parsed'
  rw [messages, calls, run_eq, free_eq]
  refine ⟨rfl, rfl, ⟨_, rfl⟩, fun e member => (genuine e member).1,
    fun e member => (genuine' e member).1, stream, ?_, course.forest?.getD [], ?_, rfl, delivered⟩
  · intro plain
    obtain ⟨stream, same⟩ := items_plain plain (course.forest?.getD [])
    have flat : (stream.map Item.call).flatMap Item.calls = stream := by
      simp [List.flatMap_map, Item.calls]
    rw [same] at delivered ⊢
    rw [flat]
    exact delivered.upToRefusal
  · cases replayed : course.forest? with
    | none => exact .inl rfl
    | some forest => exact .inr (derives forest replayed)

end Parser

end Xml

namespace Config

/-- The functions of the client never give up. -/
structure Client.Calm (client : Client σ) : Prop where
  receiver : ∀ p world call reason, (client.receiver p world call).2 ≠ .crash reason
  sink : ∀ p world notice reason, (client.sink p world notice).2 ≠ .crash reason

/-- The client with a log. -/
def Client.logged (client : Client σ) : Client (Log Parser Call σ) :=
  ⟨Log.receiver client.receiver, Log.sink client.sink⟩

/-- The parser takes no request. -/
def Parser.Refuses (p : Parser) : Prop :=
  ∀ (σ : Type) (source : Source) (start stop : Nat) (client : Client σ) (world : σ),
    p.parseRange source start stop client world = ⟨p, world, .ok .parsingNow⟩

/-- All the calls for a journal, the closing one included. -/
def allCalls (policy : Policy) (forest : List (Tree Action)) : List Call :=
  calls policy false forest ++ [.done (forest.all isValid)]

namespace Parser

theorem refuses_of_busy {p : Parser} (busy : p.driver.busy = true) : p.Refuses := by
  intro σ source start stop client world
  rw [parse_eq, Driver.parse_busy busy]

variable (p : Parser) (source : Source) (start stop : Nat) (client : Client σ) (world : σ)

/-- Keeping a log changes nothing. -/
theorem parse_logged :
    let run := p.parseRange source start stop client.logged { world }
    p.parseRange source start stop client world =
      ⟨run.parser, run.world.world, run.outcome⟩ := by
  intro run
  let shown (driver : Driver) : Parser := { p with driver }
  have replays (forest : List (Tree Action)) :
      Simulates (Prod.map id Log.world) (replay (shown p.driver.inside) client.logged forest)
        (replay (shown p.driver.inside) client forest) := by
    refine Simulates.bind (Simulates.besideOwn (calls_simulates (fun _ _ => rfl) _ _))
      fun delivery => ?_
    refine Simulates.bind (Simulates.modify fun _ => rfl) fun _ => ?_
    obtain ⟨_ | _⟩ := delivery
    · refine Simulates.bind (Simulates.besideOwn (ask_simulates (fun _ _ => rfl) _)) fun _ => ?_
      exact Simulates.pure _
    · exact Simulates.pure _
  have same := Driver.parse_simulates (Prod.map id Log.world) p.driver
    (client.logged.besideFlag shown) (client.besideFlag shown) (fun _ _ => rfl) replays
    (Grammar.root p.policy) source start stop (p.valid, { world })
  exact congrArg (fun parsed : Backtrack.Parsed (Bool × σ) =>
    Parsed.mk { p with driver := parsed.driver, valid := parsed.world.1 } parsed.world.2
      parsed.outcome) same

/-- The closing call is the last of the stream, and is not made behind a refusal. -/
theorem replay_logged {client : Client σ} (calm : client.Calm) (shown : Parser)
    (forest : List (Tree Action)) (flag : Bool) (log : Log Parser Call σ) :
    ∃ part world, replay shown client.logged forest (flag, log) =
        .ok (forest.all isValid) (forest.all isValid,
          ⟨log.messages, log.calls ++ part, world⟩) ∧
      UpToRefusal (allCalls shown.policy forest) part ∧
      ∀ e ∈ part, e.Genuine client.receiver fun q => ∃ valid, q = { shown with valid } := by
  obtain ⟨part, world, made, stream, genuine⟩ :=
    calls_logged shown calm.receiver (calls shown.policy false forest) log
  have genuine (e) (member : e ∈ part) :=
    (genuine e member).mono fun q same =>
      (⟨shown.valid, same⟩ : ∃ valid, q = { shown with valid })
  have replayed : replay shown client.logged forest (flag, log) =
      (if !(part.findIdx? Exchange.refused).isSome then do
        let _ ← besideOwn ((client.logged.receiver { shown with valid := forest.all isValid }).ask
          (.done (forest.all isValid)))
        return forest.all isValid
      else return forest.all isValid)
        (forest.all isValid, ⟨log.messages, log.calls ++ part, world⟩) := by
    rw [replay, bind_apply]
    simp only [besideOwn, Client.logged, made]
    rfl
  cases found : part.findIdx? Exchange.refused with
  | some k =>
    refine ⟨part, world, ?_, stream.extend found _, genuine⟩
    rw [replayed, found]
    rfl
  | none =>
    let judged : Parser := { shown with valid := forest.all isValid }
    obtain ⟨e, world', asked, given, closing⟩ := ask_logged judged calm.receiver
      (.done (forest.all isValid)) ⟨log.messages, log.calls ++ part, world⟩
    refine ⟨part ++ [e], world', ?_, stream.concat found given, ?_⟩
    · rw [replayed, found]
      simp only [Option.isSome_none, Bool.not_false, if_true, bind_apply, besideOwn,
        Client.logged, judged, asked, List.append_assoc]
      rfl
    · intro e' member
      rcases List.mem_append.mp member with member | member
      · exact genuine e' member
      · obtain rfl := List.mem_singleton.mp member
        exact closing.mono fun q same => ⟨_, same⟩

/-- The log of a calm client over the course of a parse. -/
theorem parse_log {client : Client σ} (calm : client.Calm) {course : Driver.Course Action}
    (fits : course.Fits p.driver (Grammar.root p.policy) source start stop (·.all isValid)) :
    ∃ heard part last,
      p.parseRange source start stop client.logged { world } =
        ⟨{ p with
            driver := course.driver
            valid := course.forest?.elim p.valid (·.all isValid) },
          ⟨heard, part, last⟩, .ok course.outcome⟩ ∧
      UpToRefusal course.messages heard ∧
      UpToRefusal (course.forest?.elim [] (allCalls p.policy)) part ∧
      (∀ e ∈ heard, e.Genuine client.sink (·.Refuses)) ∧
      ∀ e ∈ part, e.Genuine client.receiver (·.Refuses) := by
  let shown : Parser := { p with driver := p.driver.inside }
  have refuses (q : Parser) (same : q = shown) : q.Refuses := same ▸ refuses_of_busy rfl
  have refuses' (q : Parser) (same : ∃ valid, q = { shown with valid }) : q.Refuses := by
    obtain ⟨valid, rfl⟩ := same
    exact refuses_of_busy rfl
  have sinks : (client.logged.besideFlag fun driver => { p with driver }).sink p.driver.inside =
      sinkBesideOwn (Log.sink client.sink shown) := rfl
  obtain ⟨heard, part, last, -, parsed, stream, genuine, given⟩ :=
    fits.logged sinks calm.sink (replay_logged calm shown) p.valid world
  refine ⟨heard, part, last, ?_, stream, ?_, fun e member => (genuine e member).mono refuses, ?_⟩
  · rw [parse_eq]
    simp only [parsed]
  · cases replayed : course.forest? with
    | none =>
      obtain rfl : part = [] := by simpa [replayed] using given
      exact .nil
    | some forest =>
      simp only [replayed] at given
      exact given.1
  · intro e member
    cases replayed : course.forest? with
    | none =>
      obtain rfl : part = [] := by simpa [replayed] using given
      cases member
    | some forest =>
      simp only [replayed] at given
      exact (given.2 e member).mono refuses'

theorem deaf_calm : Client.deaf.Calm := ⟨fun _ _ _ _ => nofun, fun _ _ _ _ => nofun⟩

/-- The course of the parse, and what the client that accepts everything is given. -/
theorem parse_free :
    ∃ course : Driver.Course Action,
      course.Fits p.driver (Grammar.root p.policy) source start stop (·.all isValid) ∧
      (∀ forest, course.forest? = some forest →
        ∃ next, Derives source (min stop source.size) (Grammar.root p.policy) start next forest) ∧
      let free := p.parseRange source start stop Client.deaf.logged { world := () }
      free.world.messages.map (·.given) = course.messages ∧
      free.world.calls.map (·.given) = course.forest?.elim [] (allCalls p.policy) := by
  have balanced : (Grammar.root p.policy).Balanced := (Shipped.config p.policy).balanced
  obtain ⟨course, fits, derives⟩ :=
    Driver.parse_fits balanced p.driver source start stop (·.all isValid)
  refine ⟨course, fits, derives, ?_⟩
  obtain ⟨heard, part, last, parsed, stream, calls, genuine, genuine'⟩ :=
    parse_log p source start stop () deaf_calm fits
  rw [parsed]
  exact ⟨stream.all_given fun e member => (genuine e member).not_refused fun _ _ _ => rfl,
    calls.all_given fun e member => (genuine' e member).not_refused fun _ _ _ => rfl⟩

/-- A parse beside the one in which everything is accepted. -/
theorem unswayed {client : Client σ} (calm : client.Calm) :
    let run := p.parseRange source start stop client.logged { world }
    let free := p.parseRange source start stop Client.deaf.logged { world := () }
    run.parser = free.parser ∧ run.outcome = free.outcome ∧
    (∃ outcome, run.outcome = .ok outcome) ∧
    (∀ e ∈ run.world.messages, e.shown.Refuses) ∧ (∀ e ∈ run.world.calls, e.shown.Refuses) ∧
    UpToRefusal (free.world.messages.map (·.given)) run.world.messages ∧
    UpToRefusal (free.world.calls.map (·.given)) run.world.calls ∧
    (free.world.calls.map (·.given) = [] ∨
      ∃ next forest,
        Derives source (min stop source.size) (Grammar.root p.policy) start next forest ∧
        free.world.calls.map (·.given) =
          calls p.policy false forest ++ [.done (forest.all isValid)]) := by
  intro run free
  obtain ⟨course, fits, derives, messages, calls⟩ := parse_free p source start stop
  obtain ⟨heard, part, last, parsed, stream, given, genuine, genuine'⟩ :=
    parse_log p source start stop world calm fits
  obtain ⟨heard', part', last', parsed', -⟩ :=
    parse_log p source start stop () deaf_calm fits
  have run_eq : run = _ := parsed
  have free_eq : free = _ := parsed'
  rw [messages, calls, run_eq, free_eq]
  refine ⟨rfl, rfl, ⟨_, rfl⟩, fun e member => (genuine e member).1,
    fun e member => (genuine' e member).1, stream, given, ?_⟩
  cases replayed : course.forest? with
  | none => exact .inl rfl
  | some forest =>
    obtain ⟨next, derivation⟩ := derives forest replayed
    exact .inr ⟨next, forest, derivation, rfl⟩

end Parser

end Config

/-- A parser of XML constructs and a parser of config files are not swayed by a client that refuses
messages or calls and requests parses meanwhile, as long as it never gives up. The client is logged,
which changes nothing, and set beside one that accepts everything: the two parses leave the same
parser, with its report and its validity, and answer the same. Whatever parser the client's
functions see takes no request. What the client is given runs up to its first refusal, of messages
and of calls apart; the blocks of an attribute list end by themselves. -/
theorem parse_unswayed :
    (∀ (σ : Type) (p : Xml.Parser) (construct : Xml.Construct) (source : Source)
        (client : Xml.Client σ) (world : σ), client.Calm →
      let run := p.parse construct source client.logged { world }
      let free := p.parse construct source Xml.Client.deaf.logged { world := () }
      p.parse construct source client world = ⟨run.parser, run.world.world, run.outcome⟩ ∧
      run.parser = free.parser ∧ run.outcome = free.outcome ∧
      (∃ outcome, run.outcome = .ok outcome) ∧
      (∀ e ∈ run.world.messages, e.shown.Refuses) ∧ (∀ e ∈ run.world.calls, e.shown.Refuses) ∧
      UpToRefusal (free.world.messages.map (·.given)) run.world.messages ∧
      (construct ≠ .attributeList →
        UpToRefusal (free.world.calls.map (·.given)) run.world.calls) ∧
      ∃ forest, (forest = [] ∨ ∃ next, Derives source source.size construct.rule 0 next forest) ∧
        free.world.calls.map (·.given) = (forest.flatMap construct.items).flatMap Item.calls ∧
        Delivered (forest.flatMap construct.items) run.world.calls) ∧
    ∀ (σ : Type) (p : Config.Parser) (source : Source) (start stop : Nat)
        (client : Config.Client σ) (world : σ), client.Calm →
      let run := p.parseRange source start stop client.logged { world }
      let free := p.parseRange source start stop Config.Client.deaf.logged { world := () }
      p.parseRange source start stop client world =
        ⟨run.parser, run.world.world, run.outcome⟩ ∧
      run.parser = free.parser ∧ run.outcome = free.outcome ∧
      (∃ outcome, run.outcome = .ok outcome) ∧
      (∀ e ∈ run.world.messages, e.shown.Refuses) ∧ (∀ e ∈ run.world.calls, e.shown.Refuses) ∧
      UpToRefusal (free.world.messages.map (·.given)) run.world.messages ∧
      UpToRefusal (free.world.calls.map (·.given)) run.world.calls ∧
      (free.world.calls.map (·.given) = [] ∨
        ∃ next forest,
          Derives source (min stop source.size) (Config.Grammar.root p.policy) start next forest ∧
          free.world.calls.map (·.given) =
            Config.calls p.policy false forest ++ [.done (forest.all Config.isValid)]) :=
  ⟨fun _ p construct source client world calm =>
      ⟨p.parse_logged construct source client world, p.unswayed construct source world calm⟩,
    fun _ p source start stop client world calm =>
      ⟨p.parse_logged source start stop client world, p.unswayed source start stop world calm⟩⟩

/-- A sink that refuses its first message, which is all it is given, and requests a name meanwhile. -/
theorem parse_unswayed_publicId :
    let client : Xml.Client (List (Except Fault Outcome)) :=
      ⟨fun _ world _ => (world, .keep),
        fun q world _ => (world ++ [(q.parse .name #[0x78] .deaf ()).outcome], .detach)⟩
    let run := ({} : Xml.Parser).parse .publicId #[0x78] client.logged { world := [] }
    client.Calm ∧ run.outcome = .ok .notParsed ∧ run.world.world = [.ok .parsingNow] ∧
    run.world.messages.map (·.given.text) = ["Unable to finish parsing data."] ∧
    ({} : Xml.Parser).parse .publicId #[0x78] client [] =
      ⟨run.parser, run.world.world, run.outcome⟩ := by
  intro client run
  have calm : client.Calm := ⟨fun _ _ _ _ => nofun, fun _ _ _ _ => nofun⟩
  have asked : run.world.world = [.ok .parsingNow] := by subst run client; rfl
  have refuses : run.world.messages.map Exchange.refused = [true] := by subst run client; rfl
  obtain ⟨logged, -, outcome, -, -, -, messages, -⟩ :=
    parse_unswayed.1 _ {} .publicId #[0x78] client [] calm
  obtain ⟨e, only, refused⟩ := List.map_eq_singleton_iff.mp refuses
  have first : run.world.messages.findIdx? Exchange.refused = some 0 := by
    simp [only, List.findIdx?_cons, refused]
  have given := congrArg (List.map (·.text)) (messages.refused 0 first)
  refine ⟨calm, outcome.trans rfl, asked, ?_, logged⟩
  rw [List.map_map] at given
  exact given.trans rfl

end Backtrack
