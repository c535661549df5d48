import Backtrack.Proofs.Attempts
import Backtrack.Proofs.Margins

/-! The protocol between a parser of config files and its receiver. The calls come in groups: keys
before any section, then sections with their keys, and the closing call. The spans that they show
lie one behind the other in the range, as the trees of the journal do; in a pair the key stands
before all the rest. -/
namespace Backtrack

variable {σ : Type}

/-- The spans lie in the source, one behind the other from a place on and before a stop. -/
def Span.Follow (source : Source) (stop : Nat) : Nat → List Span → Prop
  | _, [] => True
  | pos, span :: rest =>
    span.source = source ∧ pos ≤ span.start ∧ span.stop ≤ stop ∧ Follow source stop span.stop rest

section Following

variable {source : Source} {stop mid pos pos' : Nat} {spans more : List Span}

theorem Span.Follow.widen (follow : Follow source stop pos' spans) (before : pos ≤ pos') :
    Follow source stop pos spans := by
  cases spans with
  | nil => trivial
  | cons span rest => exact ⟨follow.1, Nat.le_trans before follow.2.1, follow.2.2⟩

theorem Span.Follow.before (follow : Follow source mid pos spans) (inside : mid ≤ stop) :
    Follow source stop pos spans := by
  induction spans generalizing pos with
  | nil => trivial
  | cons span rest ih =>
    obtain ⟨inSource, after, within, behind⟩ := follow
    exact ⟨inSource, after, Nat.le_trans within inside, ih behind⟩

theorem Span.Follow.append (first : Follow source mid pos spans) (ordered : pos ≤ mid)
    (second : Follow source stop mid more) (inside : mid ≤ stop) :
    Follow source stop pos (spans ++ more) := by
  induction spans generalizing pos with
  | nil => exact second.widen ordered
  | cons span rest ih =>
    obtain ⟨inSource, before, within, behind⟩ := first
    exact ⟨inSource, before, Nat.le_trans within inside, ih behind within⟩

end Following

namespace Config

open Grammar

section Grouping

/-- The call for a pair. -/
def Call.ofPair (inSection : Bool) : Span × Option Span → Call
  | (key, value) => if inSection then .sectionKey key value else .globalKey key value

/-- A section with its pairs. -/
structure Group where
  name : Span
  pairs : List (Span × Option Span)

def Group.calls (group : Group) : List Call :=
  .sectionName group.name :: group.pairs.map (Call.ofPair true)

/-- Pairs come before the next section, and each section comes with its pairs. -/
theorem calls_grouped (p : Policy) (inSection : Bool) (forest : List (Tree Action)) :
    ∃ pairs : List (Span × Option Span), ∃ groups : List Group,
      calls p inSection forest =
        pairs.map (Call.ofPair inSection) ++ groups.flatMap Group.calls := by
  induction forest generalizing inSection with
  | nil => exact ⟨[], [], rfl⟩
  | cons tree rest ih =>
    rw [calls]
    split
    · obtain ⟨pairs, groups, behind⟩ := ih true
      exact ⟨[], ⟨trimmed p tree.span, pairs⟩ :: groups, by simp [behind, Group.calls]⟩
    all_goals obtain ⟨pairs, groups, behind⟩ := ih inSection
    · split
      next key value _ => exact ⟨(key, value) :: pairs, groups, by simp [behind, Call.ofPair]⟩
      next => exact ⟨pairs, groups, behind⟩
    · exact ⟨pairs, groups, behind⟩

end Grouping

section Order

variable {p : Policy} {source : Source} {stop pos next : Nat} {forest : List (Tree Action)}

/-- The children of a pair begin with its key, and there is no other. -/
def KeyFirst (tree : Tree Action) : Prop :=
  ∃ span children rest, tree.children = .node .key span children :: rest ∧
    ∀ part ∈ rest, part.action ≠ .key

theorem keyFirst_of_keyValue {tree : Tree Action}
    (derives : Derives source stop (keyValue p) pos next [tree]) : KeyFirst tree := by
  obtain ⟨_, mid, keys, values, comments, same, name, value, commented⟩ := pair_parts derives
  obtain ⟨span, inside, -, -, -, -, rfl⟩ := Derives.action_iff.mp name
  obtain rfl := List.singleton_inj.mp same
  refine ⟨span, inside, values ++ comments, rfl, ?_⟩
  refine List.forall_mem_append.mpr ⟨fun part among isKey => ?_, fun part among isKey => ?_⟩
  · obtain rfl | ⟨_, _, -, derived⟩ := value
    · cases among
    · exact value_marks p (isKey ▸ derived.action_mem part among)
  · cases isKey.symm.trans (commented part among)

/-- The spans of a pair: the key, and the value somewhere behind it. -/
theorem pair_follows {start : Nat} {tree : Tree Action} (first : KeyFirst tree)
    (nests : Nests source start tree.children stop) {key : Span} {value : Option Span}
    (found : pair? p tree.children = some (key, value)) :
    Span.Follow source stop start (key :: value.toList) := by
  obtain ⟨span, inside, rest, children, unkeyed⟩ := first
  rw [children] at nests found
  obtain ⟨keyed, valued⟩ := pair?_mem found
  cases nests with
  | cons before inSource _ behind =>
    have keys : rest.filterMap (key? p) = [] := by
      refine List.filterMap_eq_nil_iff.mpr fun part among => ?_
      cases read : key? p part with
      | none => rfl
      | some other => exact absurd (key?_eq read).1 (unkeyed part among)
    obtain rfl : key = trimmed p span := by
      simpa [key?, Tree.action, Tree.span, keys] using keyed
    have ordered := behind.ordered
    obtain ⟨first, last⟩ := trimmed_ends p span
    refine ⟨(trimmed_source p span).trans inSource, by omega, by omega, ?_⟩
    cases value with
    | none => trivial
    | some content =>
      have member : content ∈ rest.filterMap (value? p) := by
        simpa [value?, Tree.action] using valued content rfl
      obtain ⟨part, among, read⟩ := List.mem_filterMap.mp member
      obtain ⟨inRest, after, before⟩ :=
        behind.inside_of_mem part among part (List.mem_cons_self ..)
      obtain ⟨start, stop⟩ := trimmed_ends p part.span
      obtain ⟨-, rfl⟩ | ⟨-, rfl⟩ := value?_eq read
      · exact ⟨(trimmed_source p part.span).trans inRest, by omega, by omega, trivial⟩
      · exact ⟨inRest, by omega, by omega, trivial⟩

/-- The spans of the calls for a journal lie as its trees do. -/
theorem calls_follow {start : Nat} (nests : Nests source start forest stop)
    (first : ∀ tree ∈ forest, tree.action = .keyValue → KeyFirst tree) (inSection : Bool) :
    Span.Follow source stop start ((calls p inSection forest).flatMap Call.spans) := by
  induction nests generalizing inSection with
  | nil => trivial
  | @cons start stop action children trees span before inSource nested behind _ ih =>
    have rest (inSection : Bool) := ih (fun tree member => first tree (.tail _ member)) inSection
    have ordered := behind.ordered
    have here {spans more : List Span} (own : Span.Follow source span.stop span.start spans)
        (others : Span.Follow source stop span.stop more) :
        Span.Follow source stop start (spans ++ more) :=
      (own.append span.start_le_stop others ordered).widen before
    have skip (inSection : Bool) := (rest inSection).widen (before.trans span.start_le_stop)
    rw [calls]
    split
    · obtain ⟨first, last⟩ := trimmed_ends p span
      have own : Span.Follow source span.stop span.start [trimmed p span] :=
        ⟨(trimmed_source p span).trans inSource, first, last, trivial⟩
      exact here own (rest true)
    next named =>
      split
      next key value found =>
        have own := pair_follows (first _ (List.mem_cons_self ..) named) nested found
        cases inSection
        · exact here own (rest false)
        · exact here own (rest true)
      next => exact skip inSection
    next => exact skip inSection

end Order

section Replay

variable {client : Client σ}

theorem Client.Accepting.calm (accepting : client.Accepting) (p : Parser) (world : σ) (call : Call)
    (reason : String) : (client.receiver p world call).2 ≠ .crash reason := by
  rw [accepting]
  nofun

/-- A receiver that takes every call is given all the calls for the derivation that is judged, and
none without a match. -/
theorem Parser.parse_given (p : Parser) (source : Source) (start stop : Nat) (world : σ)
    (accepting : client.Accepting) {outcome : Outcome}
    (returned : (p.parseRange source start stop client.logged { world }).outcome = .ok outcome) :
    let calls := (p.parseRange source start stop client.logged { world }).world.calls
    (∃ next forest, start ≤ stop ∧ stop ≤ source.size ∧
      Derives source stop (root p.policy) start next forest ∧
      outcome = .classify (forest.all isValid) (next == stop) ∧
      calls.map (·.given) = allCalls p.policy forest) ∨
    (¬ (outcome.isGood = true ∨ outcome = .notValid) ∧ calls = []) := by
  intro calls
  let host := client.logged.besideFlag fun driver => { p with driver }
  rw [parse_eq] at returned
  by_cases refuses : p.driver.Refuses source start stop
  · obtain ⟨refused, unattempted, -, parsed⟩ :=
      refuses.parse_eq host (root p.policy) (p.valid, { world })
    have made : calls = _ := congrArg (·.world.2.calls) parsed
    obtain rfl := Except.ok.inj (returned.symm.trans (congrArg (·.outcome) parsed))
    refine .inr ⟨?_, made⟩
    rintro (good | rfl)
    · simp [Outcome.impliesAttempt, good] at unattempted
    · cases unattempted
  · obtain ⟨idle, accepted⟩ := Driver.not_refuses_iff.mp refuses
    obtain ⟨ordered, inside⟩ := Driver.refuse?_none accepted
    have balanced : (root p.policy).Balanced := (Shipped.config p.policy).balanced
    -- the sink writes to the log of messages alone
    have keeps (state : Bool × Log Parser Call σ) (notice : Notice)
        (uncalled : state.2.calls = []) :
        (host.sink p.driver.inside state notice).1.2.calls = [] := uncalled
    -- the replay does not look at the sink, so any sink will do here
    let quiet : Client σ := ⟨client.receiver, fun _ world _ => (world, .keep)⟩
    have calm : quiet.Calm := ⟨accepting.calm, by simp [quiet]⟩
    have replays (forest : List (Tree Action)) (state : Bool × Log Parser Call σ)
        (uncalled : state.2.calls = []) : ∃ after,
          host.replay p.driver.inside forest state = .ok (forest.all isValid) after ∧
          after.2.calls.map (·.given) = allCalls p.policy forest := by
      obtain ⟨part, world', replayed, stream, genuine⟩ :=
        replay_logged calm { p with driver := p.driver.inside } forest state.1 state.2
      refine ⟨_, replayed, ?_⟩
      rw [uncalled]
      exact stream.all_given fun e member => (genuine e member).not_refused accepting
    obtain ⟨next, forest, derives, judged, given⟩ | ⟨ended, uncalled⟩ :=
      Driver.parse_replayed balanced idle accepted keeps rfl replays returned
    · rw [Nat.min_eq_left inside] at derives judged
      exact .inl ⟨next, forest, Nat.le_of_lt ordered, inside, derives, judged, given⟩
    · refine .inr ⟨?_, uncalled⟩
      rcases ended with rfl | rfl <;> simp [Outcome.isGood]

end Replay

end Config

open Config in
/-- The calls on a receiver that takes every call. Where a parse comes to a verdict, they are keys
before any section, then sections with their keys, and last the closing call, which tells whether
the content is valid; the names, keys and values that they show lie one behind the other in the
range. Elsewhere no call is made. -/
theorem parse_follows_protocol (p : Config.Parser) (source : Source) (start stop : Nat)
    (client : Config.Client σ) (world : σ) (accepting : client.Accepting) :
    let run := p.parseRange source start stop client.logged { world }
    let given := run.world.calls.map (·.given)
    p.parseRange source start stop client world = ⟨run.parser, run.world.world, run.outcome⟩ ∧
    (client.Calm → ∃ outcome, run.outcome = .ok outcome) ∧
    ∀ outcome, run.outcome = .ok outcome →
      (outcome.isGood = true ∨ outcome = .notValid →
        ∃ (globals : List (Span × Option Span)) (groups : List Group) (valid : Bool),
          given = globals.map (Call.ofPair false) ++ groups.flatMap Group.calls ++ [.done valid] ∧
          (valid = true ↔ outcome ≠ .notValid) ∧
          Span.Follow source stop start (given.flatMap Call.spans)) ∧
      (¬ (outcome.isGood = true ∨ outcome = .notValid) → given = []) := by
  intro run given
  refine ⟨p.parse_logged source start stop client world, fun calm => ?_, fun outcome returned => ?_⟩
  · obtain ⟨-, -, answered, -⟩ := p.unswayed source start stop world calm
    exact answered
  obtain ⟨next, forest, ordered, inside, derives, rfl, made⟩ | ⟨unjudged, none⟩ :=
    p.parse_given source start stop world accepting returned
  · obtain ⟨globals, groups, grouped⟩ := calls_grouped p.policy false forest
    have length : (inputUpTo source stop).length = stop := by
      simpa [inputUpTo] using inside
    have nests := derives.nests (length.symm ▸ ordered)
    have within := derives.recognizes.advances (length.symm ▸ ordered)
    have keyed (tree : Tree Action) (member : tree ∈ forest) (named : tree.action = .keyValue) :
        KeyFirst tree := by
      obtain ⟨_, _, -, -, pair⟩ :=
        (root_aligned (length.symm ▸ ordered) derives tree member).keyValue named
      exact keyFirst_of_keyValue pair
    have follow :
        Span.Follow source stop start ((calls p.policy false forest).flatMap Call.spans) :=
      (calls_follow nests keyed false).before (length ▸ within.2)
    refine ⟨fun _ => ⟨globals, groups, forest.all isValid, ?_, ?_, ?_⟩, fun unjudged => ?_⟩
    · exact made.trans (congrArg (· ++ [_]) grouped)
    · cases forest.all isValid <;> cases next == stop <;> simp [Outcome.classify]
    · have spans : given.flatMap Call.spans = (calls p.policy false forest).flatMap Call.spans := by
        simp [given, run, made, allCalls, Call.spans]
      exact spans ▸ follow
    · refine absurd ?_ unjudged
      cases forest.all isValid <;> cases next == stop <;> simp [Outcome.classify, Outcome.isGood]
  · exact ⟨fun judged => absurd judged unjudged, fun _ => by simp [given, run, none]⟩

/-- A global key, then a section with two keys, in a range that leaves the first byte out. -/
theorem parse_follows_protocol_section :
    let p := Config.Parser.build {}
    let source : Source := (Text.utf8 "-a = 1\n[s]\nb\nc = 2\n").toArray
    let run := p.parseRange source 1 source.size Config.Client.deaf.logged { world := () }
    let given := run.world.calls.map (·.given)
    Config.Client.deaf.Accepting ∧ run.outcome = .ok .allValid ∧ given.length = 5 ∧
    (∃ (globals : List (Span × Option Span)) (groups : List Config.Group),
      given = globals.map (Config.Call.ofPair false) ++ groups.flatMap Config.Group.calls ++
        [.done true]) ∧
    Span.Follow source source.size 1 (given.flatMap Config.Call.spans) := by
  intro p source run given
  have accepting : Config.Client.deaf.Accepting := fun _ _ _ => rfl
  have returned : run.outcome = .ok .allValid := by decide +kernel
  have count : given.length = 5 := by decide +kernel
  obtain ⟨-, -, protocol⟩ := parse_follows_protocol p source 1 source.size .deaf () accepting
  obtain ⟨globals, groups, valid, grouped, told, follow⟩ := (protocol _ returned).1 (.inl rfl)
  obtain rfl : valid = true := told.mpr nofun
  exact ⟨accepting, returned, count, ⟨globals, groups, grouped⟩, follow⟩

end Backtrack
