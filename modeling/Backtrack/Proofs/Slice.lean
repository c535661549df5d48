import Backtrack.Proofs.LineTable
import Backtrack.Proofs.Twins
import Backtrack.Proofs.Watching

/-! A parse of a range is a parse of the slice that the range holds. Of what stands in front of the
range, a parse sees the number of line feeds and the column where the range starts, and it sees
nothing of what stands behind. -/
namespace Backtrack

variable {σ τ α : Type}

/-- The host never refuses a message, and judges the trees of a range, moved to where the range
starts, by this verdict. -/
structure Host.Accepts (host : Host σ α) (verdict : List (Tree α) → Bool) (source : Source)
    (start : Nat) : Prop where
  keeps : ∀ driver world notice, (host.sink driver world notice).2 = .keep
  answers : ∀ driver forest world, ∃ world',
    host.replay driver (forest.map (Tree.displace source start)) world =
      .ok (verdict forest) world'

/-- What a noted host has seen, beside the state of the host. -/
structure Noted (σ α : Type) where
  received : List Notice := []
  journals : List (List (Tree α)) := []
  world : σ

/-- The host with a note of each message that its sink receives and of each journal that is
replayed. -/
def Host.noted (host : Host σ α) : Host (Noted σ α) α where
  sink driver w notice :=
    let (world, reply) := host.sink driver w.world notice
    ({ w with received := w.received ++ [notice], world }, reply)
  replay driver forest := fun w =>
    match host.replay driver forest w.world with
    | .ok valid world => .ok valid { w with journals := w.journals ++ [forest], world }
    | .error fault world => .error fault { w with journals := w.journals ++ [forest], world }

theorem Host.noted_replay {host : Host σ α} {driver : Driver} {forest : List (Tree α)}
    {w : Noted σ α} {valid : Bool} {world : σ}
    (replayed : host.replay driver forest w.world = .ok valid world) :
    host.noted.replay driver forest w =
      .ok valid { w with journals := w.journals ++ [forest], world } := by
  simp only [noted, replayed]

/-- Taking notes changes nothing about a parse. -/
theorem Driver.parse_noted (d : Driver) (host : Host σ α) (rule : Rule α) (source : Source)
    (start stop : Nat) (world : σ) :
    let noted := d.parse host.noted rule source start stop { world }
    d.parse host rule source start stop world =
      ⟨noted.driver, noted.world.world, noted.outcome⟩ := by
  refine parse_simulates Noted.world d host.noted host (fun _ _ => rfl) ?_ rule source start stop
    { world }
  intro forest w
  simp only [Host.noted]
  cases host.replay d.inside forest w.world <;> rfl

/-- A message of a range with `before` in front of it, and the same message of the range alone. -/
structure Notice.Behind (before : Bytes) (n n' : Notice) : Prop where
  level : n.level = n'.level
  origin : n.origin = n'.origin
  line : n.line = if n'.line = 0 then 0 else saturate (lineFeeds before + n'.line)
  text : n.text = n'.text ∨ ∃ label name p,
    n.text = (Breadcrumb.mk label name (some (Position.behind before p))).render ∧
    n'.text = (Breadcrumb.mk label name (some p)).render

/-- The fault of a range with `before` in front of it, from that of the range alone. -/
def Fault.behind (before : Bytes) : Fault → Fault
  | .nothingToCancel line => .nothingToCancel (saturate (lineFeeds before + line))
  | fault => fault

/-- Two positions of a place, with and without `before` in front of the bytes. -/
structure Position.Apart (before bytes : Bytes) (p p' : Position) : Prop where
  behind : p = p'.behind before
  counted : 0 < p'.line
  within : p'.line ≤ lineFeeds bytes + 1

theorem Position.Apart.line {before bytes : Bytes} {p p' : Position} (h : p.Apart before bytes p') :
    p.line = saturate (lineFeeds before + p'.line) :=
  congrArg Position.line h.behind

theorem Notice.Shifted.behind {before bytes : Bytes} {n n' : Notice}
    (h : n.Shifted (Position.Apart before bytes) n') : n.Behind before n' := by
  refine ⟨h.level, h.origin, ?_, ?_⟩
  · obtain ⟨none, none'⟩ | ⟨p, p', apart, line, line'⟩ := h.line
    · rw [none, none', if_pos rfl]
    · rw [line, line', if_neg (Nat.ne_of_gt apart.counted), apart.line]
  · refine h.text.imp id ?_
    rintro ⟨⟨label, name, position⟩, ⟨label', name', position'⟩, same, text, text'⟩
    obtain ⟨rfl, rfl, p, p', apart, here, here'⟩ := same
    cases here
    cases here'
    exact ⟨label, name, p', apart.behind ▸ text, text'⟩

theorem Notice.Shifted.exact {before bytes : Bytes} {n n' : Notice}
    (h : n.Shifted (Position.Apart before bytes) n')
    (fits : lineFeeds before + lineFeeds bytes < 0xFFFFFFFF) (lined : n'.line ≠ 0) :
    n.line = n'.line + lineFeeds before := by
  obtain ⟨-, none'⟩ | ⟨p, p', apart, line, line'⟩ := h.line
  · exact absurd none' lined
  · have within := apart.within
    rw [line, line', apart.line, saturate]
    omega

theorem SameEnd.behind {before bytes : Bytes} {ended ended' : Except Fault Outcome}
    (h : SameEnd (Position.Apart before bytes) ended ended') :
    ended = ended'.mapError (·.behind before) := by
  cases h with
  | ok => rfl
  | error fault =>
    cases fault with
    | nothingToPrepare | pendingAfterMatch => rfl
    | nothingToCancel line =>
      obtain ⟨p, p', apart, rfl, rfl⟩ := line
      rw [apart.line]
      rfl

theorem SameEnd.eq {ended ended' : Except Fault Outcome} (h : SameEnd (· = ·) ended ended') :
    ended = ended' := by
  cases h with
  | ok => rfl
  | error fault =>
    cases fault with
    | nothingToPrepare | pendingAfterMatch => rfl
    | nothingToCancel line =>
      obtain ⟨_, _, rfl, rfl, rfl⟩ := line
      rfl

theorem Notice.Shifted.eq {n n' : Notice} (h : n.Shifted (· = ·) n') : n = n' := by
  obtain ⟨⟨level, text, origin⟩, line⟩ := n
  obtain ⟨⟨level', text', origin'⟩, line'⟩ := n'
  obtain ⟨rfl, rfl, lines, texts⟩ := h
  obtain rfl : line = line' := by
    obtain ⟨none, none'⟩ | ⟨_, _, rfl, here, here'⟩ := lines
    · exact none.trans none'.symm
    · exact here.trans here'.symm
  obtain rfl : text = text' := by
    obtain same | ⟨⟨_, _, _⟩, ⟨_, _, _⟩, ⟨rfl, rfl, _, _, rfl, here, here'⟩, text, text'⟩ := texts
    · exact same
    · cases here
      cases here'
      exact text.trans text'.symm
  rfl

/-- A derivation keeps its place when nothing is put in front of its source. -/
theorem Derives.displace_zero {source : Source} {stop pos next : Nat} {rule : Rule α}
    {f : List (Tree α)} (h : Derives source stop rule pos next f)
    (inside : pos ≤ (inputUpTo source stop).length) : f.map (Tree.displace source 0) = f := by
  have longer : inputUpTo source stop = [] ++ inputUpTo source stop := rfl
  have same := h.behind longer inside
  simp only [List.length_nil, Nat.zero_add] at same
  exact h.unique same

theorem LineIndex.position_apart {source : Source} {start stop : Nat} (ordered : start ≤ stop)
    (inside : stop ≤ source.size) (k : Nat) :
    ((ofSource (source.extract 0 stop)).position (start + k)).Apart (inputUpTo source start)
      (source.extract start stop).toList ((ofSource (source.extract start stop)).position k) := by
  have length := length_inputUpTo (Nat.le_trans ordered inside)
  have behind := position_behind (inputUpTo_split source ordered) k
  rw [length] at behind
  refine ⟨behind, ?_, ?_⟩
  · simp only [position_ofSource, saturate]
    omega
  · have fewer : lineFeeds ((source.extract start stop).toList.take k) ≤
        lineFeeds (source.extract start stop).toList := (List.take_sublist ..).count_le _
    simp only [position_ofSource, saturate]
    omega

namespace Driver

variable {host : Host σ α} {host' : Host τ α} {source : Source} {start stop : Nat}
  {verdict : List (Tree α) → Bool}

/-- A range and its slice. -/
theorem slice_sameRange (d : Driver) (rule : Rule α) (ordered : start < stop)
    (inside : stop ≤ source.size)
    (accepts : host.Accepts verdict source start)
    (accepts' : host'.Accepts verdict (source.extract start stop) 0) :
    SameRange
      (Position.Apart (inputUpTo source start) (source.extract start stop).toList)
      (fun w w' => List.Forall₂
          (Notice.Shifted
            (Position.Apart (inputUpTo source start) (source.extract start stop).toList))
          w.received w'.received ∧
        w.journals = w'.journals.map (·.map (Tree.displace source start)))
      d rule host.noted host'.noted source (source.extract start stop) start 0 stop
      (source.extract start stop).size where
  accepted := by
    unfold refuse?
    grind
  accepted' := by
    simp only [Array.size_extract]
    unfold refuse?
    grind
  bytes := Array.extract_size.symm
  places := by
    intro k _
    rw [Nat.zero_add, Array.extract_size]
    exact LineIndex.position_apart (Nat.le_of_lt ordered) inside k
  sinks := by
    intro w w' n n' same notices
    exact ⟨accepts.keeps _ _ _, accepts'.keeps _ _ _,
      List.rel_append same.1 (.cons notices .nil), same.2⟩
  replays := by
    intro next forest w w' same derives
    obtain ⟨v, replayed⟩ := accepts.answers d.inside forest w.world
    obtain ⟨v', replayed'⟩ := accepts'.answers d.inside forest w'.world
    refine ⟨verdict forest, _, _, Host.noted_replay replayed, Host.noted_replay replayed',
      same.1, ?_⟩
    simp only [same.2, List.map_append, derives.displace_zero (Nat.zero_le _)]
    rfl

/-- Two ranges that hold the same bytes and begin at the same line and column. -/
theorem elsewhere_sameRange (d : Driver) (rule : Rule α) {other : Source} {first last : Nat}
    (ordered : start < stop)
    (inside : stop ≤ source.size) (ordered' : first < last) (inside' : last ≤ other.size)
    (accepts : host.Accepts verdict source start) (accepts' : host'.Accepts verdict other first)
    (bytes : source.extract start stop = other.extract first last)
    (lines : lineFeeds (inputUpTo source start) = lineFeeds (inputUpTo other first))
    (columns : start - lastLine (inputUpTo source start) =
      first - lastLine (inputUpTo other first)) :
    SameRange (· = ·) (fun w w' => w.received = w'.received) d rule host.noted host'.noted source
      other start first stop last where
  accepted := by
    unfold refuse?
    grind
  accepted' := by
    unfold refuse?
    grind
  bytes
  places := by
    intro k _
    have here := (LineIndex.position_apart (Nat.le_of_lt ordered) inside k).behind
    have there := (LineIndex.position_apart (Nat.le_of_lt ordered') inside' k).behind
    have length := length_inputUpTo (Nat.le_trans (Nat.le_of_lt ordered) inside)
    have length' := length_inputUpTo (Nat.le_trans (Nat.le_of_lt ordered') inside')
    rw [here, there, bytes]
    simp only [Position.behind, lines, columns, length, length']
  sinks := by
    rintro ⟨received, journals, world⟩ ⟨_, journals', world'⟩ n n' rfl notices
    obtain rfl := notices.eq
    exact ⟨accepts.keeps _ _ _, accepts'.keeps _ _ _, rfl⟩
  replays := by
    intro next forest w w' same derives
    obtain ⟨v, replayed⟩ := accepts.answers d.inside forest w.world
    obtain ⟨v', replayed'⟩ := accepts'.answers d.inside forest w'.world
    exact ⟨verdict forest, _, _, Host.noted_replay replayed, Host.noted_replay replayed', same⟩

end Driver

/-- A parse of a range is a parse of the slice that the range holds. Both fault, or both end in one
outcome with one report; the journal has the same trees, moved to where the range starts; and the
same messages come in the same order, moved down by the line feeds in front of the range. Line
numbers stay at the greatest one: they are moved by exactly that much unless the text up to the end
of the range has so many line feeds that they reach it. So nothing else outside the range matters:
in any other source in which the same bytes begin at the same line and column, the parse sends the
same messages and ends in the same way. -/
theorem parse_slice (d : Driver) (rule : Rule α) (source : Source) (start stop : Nat)
    (host : Host σ α) (host' : Host τ α) (world : σ) (world' : τ) (verdict : List (Tree α) → Bool)
    (ordered : start < stop) (inside : stop ≤ source.size)
    (accepts : host.Accepts verdict source start)
    (accepts' : host'.Accepts verdict (source.extract start stop) 0) :
    let slice := source.extract start stop
    let before := inputUpTo source start
    let whole := d.parse host.noted rule source start stop { world }
    let alone := d.parse host'.noted rule slice 0 slice.size { world := world' }
    d.parse host rule source start stop world =
      ⟨whole.driver, whole.world.world, whole.outcome⟩ ∧
    d.parse host' rule slice 0 slice.size world' =
      ⟨alone.driver, alone.world.world, alone.outcome⟩ ∧
    whole.outcome = alone.outcome.mapError (·.behind before) ∧
    whole.driver = alone.driver ∧
    whole.world.journals = alone.world.journals.map (·.map (Tree.displace source start)) ∧
    List.Forall₂ (Notice.Behind before) whole.world.received alone.world.received ∧
    (lineFeeds (inputUpTo source stop) < 0xFFFFFFFF →
      List.Forall₂ (fun n n' => n'.line ≠ 0 → n.line = n'.line + lineFeeds before)
        whole.world.received alone.world.received) ∧
    ∀ (υ : Type) (other : Source) (first last : Nat) (host₂ : Host υ α) (world₂ : υ),
      first < last → last ≤ other.size → other.extract first last = slice →
      host₂.Accepts verdict other first →
      lineFeeds (inputUpTo other first) = lineFeeds before →
      first - lastLine (inputUpTo other first) = start - lastLine before →
      let elsewhere := d.parse host₂.noted rule other first last { world := world₂ }
      elsewhere.outcome = whole.outcome ∧ elsewhere.driver = whole.driver ∧
        elsewhere.world.received = whole.world.received := by
  intro slice before whole alone
  have range := Driver.slice_sameRange d rule ordered inside accepts accepts'
  obtain ⟨drivers, ends, received, journals⟩ :=
    range.parse_shifted { world } { world := world' } ⟨.nil, rfl⟩
  refine ⟨d.parse_noted host rule source start stop world,
    d.parse_noted host' rule slice 0 slice.size world', ends.behind, drivers, journals,
    received.imp fun _ _ notices => notices.behind, ?_, ?_⟩
  · intro few
    refine received.imp fun _ _ notices lined => notices.exact ?_ lined
    rw [← lineFeeds_append, ← inputUpTo_split _ (Nat.le_of_lt ordered)]
    exact few
  · intro υ other first last host₂ world₂ ordered₂ inside₂ bytes accepts₂ lines columns
    have range := Driver.elsewhere_sameRange d rule ordered₂ inside₂ ordered inside accepts₂
      accepts bytes lines columns
    obtain ⟨drivers, ends, received⟩ := range.parse_shifted { world := world₂ } { world } rfl
    exact ⟨ends.eq, drivers, received⟩

/-- The range begins on the second line, behind a line feed that its slice does not have. -/
theorem parse_slice_second_line :
    let rule : Rule Nat := ((Rule.literal [0x61]).enterScope "letter").sendNow (.minor "odd") ++
      (Rule.literal [0x62]).action 7
    let host : Host Unit Nat := ⟨fun _ _ _ => ((), .keep), fun _ _ => pure true⟩
    let source : Source := #[0x0A, 0x61, 0x62, 0x63]
    let slice := source.extract 1 3
    let whole := Driver.parse {} host.noted rule source 1 3 { world := () }
    let alone := Driver.parse {} host.noted rule slice 0 slice.size { world := () }
    1 < 3 ∧ 3 ≤ source.size ∧ host.Accepts (fun _ => true) source 1 ∧
    host.Accepts (fun _ => true) slice 0 ∧
    whole.outcome = alone.outcome.mapError (·.behind (inputUpTo source 1)) ∧
    List.Forall₂ (fun n n' => n'.line ≠ 0 → n.line = n'.line + 1) whole.world.received
      alone.world.received := by
  intro rule host source slice whole alone
  have accepts (source : Source) (start : Nat) : host.Accepts (fun _ => true) source start :=
    ⟨fun _ _ _ => rfl, fun _ _ _ => ⟨(), rfl⟩⟩
  obtain ⟨-, -, outcome, -, -, -, exact, -⟩ := parse_slice {} rule source 1 3 host host () ()
    (fun _ => true) (by decide) (by decide) (accepts source 1) (accepts slice 0)
  exact ⟨by decide, by decide, accepts source 1, accepts slice 0, outcome, exact (by decide)⟩

end Backtrack
