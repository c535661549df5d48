import Mathlib.Data.List.Basic
import Backtrack.Config.Call
import Backtrack.Proofs.Defects
import Backtrack.Proofs.Displacement

/-! The calls for a journal. They depend on the bytes under the spans and not on where these stand,
and the calls for two journals in a row are those for the one and then those for the other, where
only the section is carried over. -/
namespace Backtrack

/-- The outer source holds the bytes of the inner one from the offset on. -/
structure HoldsAt (outer : Source) (offset : Nat) (inner : Source) : Prop where
  inside : offset + inner.size ≤ outer.size
  bytes : outer.extract offset (offset + inner.size) = inner

section Spans

variable {outer inner : Source} {offset : Nat} {span : Span}

theorem Span.bytes_displace (holds : HoldsAt outer offset inner) (inSource : span.source = inner) :
    (span.displace outer offset).bytes = span.bytes := by
  subst inSource
  have short := span.stop_le_size
  have inside : offset + span.stop ≤ outer.size := by
    have := holds.inside
    omega
  have within : offset + span.stop ≤ offset + span.source.size := by omega
  simp only [bytes, displace_source, displace_start inside, displace_stop inside]
  have slice := congrArg (fun s : Source => (s.extract span.start span.stop).toList) holds.bytes
  simpa only [Array.extract_extract, Nat.min_eq_left within] using slice

theorem Span.length_bytes (span : Span) : span.bytes.length = span.size := by
  have short := span.stop_le_size
  simp only [bytes, Array.length_toList, Array.size_extract, size]
  omega

theorem Span.ext_ends {s t : Span} (source : s.source = t.source) (start : s.start = t.start)
    (stop : s.stop = t.stop) : s = t := by
  cases s
  cases t
  simp_all

/-- Stripping moves both ends towards each other, and never past each other. -/
theorem Span.trimBlanks_ends (span : Span) :
    let kept := span.bytes.dropWhile isBlank
    let trailing := (kept.reverse.takeWhile isBlank).length
    kept.length ≤ span.size ∧ trailing ≤ kept.length ∧
    span.trimBlanks.start = span.start + (span.size - kept.length) ∧
    span.trimBlanks.stop = span.stop - trailing := by
  intro kept trailing
  have dropped : kept.length ≤ span.size := by
    rw [← span.length_bytes]
    exact (List.dropWhile_sublist _).length_le
  have taken : trailing ≤ kept.length := by
    rw [← List.length_reverse]
    exact (List.takeWhile_sublist _).length_le
  have ordered := span.start_le_stop
  have short := span.stop_le_size
  have width : span.size = span.stop - span.start := rfl
  have stop : span.trimBlanks.stop = min (span.stop - trailing) span.source.size := rfl
  have start : span.trimBlanks.start =
      min (span.start + (span.size - kept.length)) span.trimBlanks.stop := rfl
  omega

/-- The span does not begin with a blank. -/
def Span.Unindented (span : Span) : Prop := ∀ b ∈ span.bytes.head?, isBlank b = false

theorem Span.Unindented.kept {span : Span} (unindented : span.Unindented) :
    span.bytes.dropWhile isBlank = span.bytes := by
  cases bytes : span.bytes with
  | nil => rfl
  | cons b rest =>
    have solid := unindented b (by rw [bytes]; rfl)
    rw [List.dropWhile_cons_of_neg (by simp [solid])]

/-- A span that does not begin with a blank stays where it begins. -/
theorem Span.Unindented.trimBlanks_start {span : Span} (unindented : span.Unindented) :
    span.trimBlanks.start = span.start := by
  obtain ⟨-, -, start, -⟩ := span.trimBlanks_ends
  rw [start, unindented.kept, span.length_bytes, Nat.sub_self, Nat.add_zero]

theorem Span.trimBlanks_displace (holds : HoldsAt outer offset inner)
    (inSource : span.source = inner) :
    (span.displace outer offset).trimBlanks = span.trimBlanks.displace outer offset := by
  have same := bytes_displace holds inSource
  subst inSource
  have inside : offset + span.stop ≤ outer.size := by
    have short := span.stop_le_size
    have within := holds.inside
    omega
  obtain ⟨dropped, taken, start, stop⟩ := span.trimBlanks_ends
  obtain ⟨-, -, start', stop'⟩ := (span.displace outer offset).trimBlanks_ends
  have first := displace_start inside
  have last := displace_stop inside
  have inside' : offset + span.trimBlanks.stop ≤ outer.size := by omega
  have size : (span.displace outer offset).size = span.size := by
    simp only [Span.size, first, last]
    omega
  rw [same, size, first] at start'
  rw [same, last] at stop'
  have width : span.size = span.stop - span.start := rfl
  refine ext_ends rfl ?_ ?_
  · rw [displace_start inside', start', start, Nat.add_assoc]
  · rw [displace_stop inside', stop', stop]
    omega

end Spans

section Trees

variable {α : Type} {outer inner : Source} {offset : Nat}

mutual

theorem Tree.defects_displace_node (isDefect : α → Bool) (outer : Source) (offset : Nat) :
    (tree : Tree α) →
      defects isDefect [tree.displace outer offset] = defects isDefect [tree]
  | .node action span children => by
    rw [displace, defects_node, defects_node, Tree.defects_displace]

theorem Tree.defects_displace (isDefect : α → Bool) (outer : Source) (offset : Nat) :
    (trees : List (Tree α)) →
      defects isDefect (trees.map (displace outer offset)) = defects isDefect trees
  | [] => rfl
  | tree :: trees => by
    have first := Tree.defects_displace_node isDefect outer offset tree
    have rest := Tree.defects_displace isDefect outer offset trees
    rw [List.map_cons, ← List.singleton_append, defects_append, first, rest, ← defects_append,
      List.singleton_append]

end

@[simp] theorem Tree.action_displace (tree : Tree α) :
    (tree.displace outer offset).action = tree.action := by
  cases tree
  rw [displace, action, action]

@[simp] theorem Tree.span_displace (tree : Tree α) :
    (tree.displace outer offset).span = tree.span.displace outer offset := by
  cases tree
  rw [displace, span, span]

/-- The span lies in the source, in `start..stop`. -/
def Span.Inside (source : Source) (start stop : Nat) (span : Span) : Prop :=
  span.source = source ∧ start ≤ span.start ∧ span.stop ≤ stop

theorem Nests.ordered {source : Source} {start stop : Nat} {f : List (Tree α)}
    (h : Nests source start f stop) : start ≤ stop := by
  induction h with
  | nil ordered => exact ordered
  | @cons _ _ _ _ _ span before _ _ _ _ behind =>
    exact Nat.le_trans before (Nat.le_trans span.start_le_stop behind)

/-- Trees and their children lie where their list does. -/
theorem Nests.inside_of_mem {source : Source} {start stop : Nat} {f : List (Tree α)}
    (h : Nests source start f stop) : ∀ tree ∈ f, ∀ part ∈ tree :: tree.children,
      part.span.Inside source start stop := by
  induction h with
  | nil => nofun
  | @cons start stop _ children _ span before inSource nested rest ih nextIh =>
    have behind := rest.ordered
    refine List.forall_mem_cons.mpr ⟨List.forall_mem_cons.mpr ⟨?_, fun part among => ?_⟩, ?_⟩
    · exact ⟨inSource, before, behind⟩
    · obtain ⟨same, first, last⟩ := ih part among part (List.mem_cons_self ..)
      exact ⟨same, Nat.le_trans before first, Nat.le_trans last behind⟩
    · intro tree member part among
      obtain ⟨same, first, last⟩ := nextIh tree member part among
      have ordered := span.start_le_stop
      exact ⟨same, by omega, last⟩

theorem Nests.source_of_mem {source : Source} {start stop : Nat} {f : List (Tree α)}
    (h : Nests source start f stop) : ∀ tree ∈ f, tree.span.source = source :=
  fun tree member => (h.inside_of_mem tree member tree (List.mem_cons_self ..)).1

end Trees

namespace Config

variable {p : Policy} {outer inner : Source} {offset : Nat}

/-- The call with other spans. -/
def Call.mapSpans (g : Span → Span) : Call → Call
  | globalKey key value => .globalKey (g key) (value.map g)
  | sectionName name => .sectionName (g name)
  | sectionKey key value => .sectionKey (g key) (value.map g)
  | done valid => .done valid

/-- The call with its spans in a source that holds their bytes further on. -/
def Call.displace (outer : Source) (offset : Nat) : Call → Call :=
  mapSpans (Span.displace outer offset)

def Call.spans : Call → List Span
  | globalKey key value => key :: value.toList
  | sectionName name => [name]
  | sectionKey key value => key :: value.toList
  | done _ => []

/-- The call as it is made behind the name of a section. -/
def Call.inSection : Call → Call
  | globalKey key value => .sectionKey key value
  | call => call

def Call.opensSection : Call → Bool
  | sectionName _ => true
  | _ => false

theorem calls_append (p : Policy) (inSection : Bool) (f g : List (Tree Action)) :
    calls p inSection (f ++ g) = calls p inSection f ++
      calls p (inSection || (calls p inSection f).any Call.opensSection) g := by
  induction f generalizing inSection with
  | nil => simp [calls]
  | cons tree f ih =>
    rw [List.cons_append, calls, calls]
    split
    next => simp [ih, Call.opensSection]
    next =>
      split
      next => cases inSection <;> simp [ih, Call.opensSection]
      next => exact ih inSection
    next => exact ih inSection

/-- Behind a section the same calls are made, with the pairs as those of the section. -/
theorem calls_inSection (p : Policy) (f : List (Tree Action)) :
    calls p true f = (calls p false f).map Call.inSection := by
  induction f with
  | nil => rfl
  | cons tree f ih =>
    have again : (calls p true f).map Call.inSection = calls p true f := by
      rw [ih, List.map_map]
      exact List.map_congr_left fun call _ => by cases call <;> rfl
    rw [calls, calls]
    split
    next => simp [again, Call.inSection]
    next =>
      split
      next => simp [ih, Call.inSection]
      next => exact ih
    next => exact ih

theorem trimmed_displace (holds : HoldsAt outer offset inner) {span : Span}
    (inSource : span.source = inner) :
    trimmed p (span.displace outer offset) = (trimmed p span).displace outer offset := by
  unfold trimmed
  split
  · exact Span.trimBlanks_displace holds inSource
  · rfl

theorem key?_displace (holds : HoldsAt outer offset inner) {tree : Tree Action}
    (inSource : tree.span.source = inner) :
    key? p (tree.displace outer offset) = (key? p tree).map (·.displace outer offset) := by
  unfold key?
  rw [Tree.action_displace, Tree.span_displace, trimmed_displace holds inSource]
  split <;> rfl

theorem value?_displace (holds : HoldsAt outer offset inner) {tree : Tree Action}
    (inSource : tree.span.source = inner) :
    value? p (tree.displace outer offset) = (value? p tree).map (·.displace outer offset) := by
  unfold value?
  rw [Tree.action_displace, Tree.span_displace, trimmed_displace holds inSource]
  split <;> rfl

theorem filterMap_displace {read : Tree Action → Option Span} {parts : List (Tree Action)}
    (each : ∀ tree ∈ parts,
      read (tree.displace outer offset) = (read tree).map (·.displace outer offset)) :
    (parts.map (Tree.displace outer offset)).filterMap read =
      (parts.filterMap read).map (·.displace outer offset) := by
  rw [List.filterMap_map, List.map_filterMap]
  exact List.filterMap_congr each

theorem pair?_displace (holds : HoldsAt outer offset inner) {parts : List (Tree Action)}
    (inSource : ∀ tree ∈ parts, tree.span.source = inner) :
    pair? p (parts.map (Tree.displace outer offset)) = (pair? p parts).map fun (key, value) =>
      (key.displace outer offset, value.map (·.displace outer offset)) := by
  have keys := filterMap_displace fun tree member =>
    key?_displace (p := p) holds (inSource tree member)
  have values := filterMap_displace fun tree member =>
    value?_displace (p := p) holds (inSource tree member)
  unfold pair?
  simp only [keys, values, List.getLast?_map, List.any_map, Function.comp_def,
    Tree.action_displace]
  split
  · rfl
  · cases (parts.filterMap (key? p)).getLast? <;> rfl

theorem trimmed_source (p : Policy) (span : Span) : (trimmed p span).source = span.source := by
  unfold trimmed
  split <;> rfl

theorem trimmed_ends (p : Policy) (span : Span) :
    span.start ≤ (trimmed p span).start ∧ (trimmed p span).stop ≤ span.stop := by
  unfold trimmed
  split
  · obtain ⟨-, -, start, stop⟩ := span.trimBlanks_ends
    omega
  · exact ⟨Nat.le_refl _, Nat.le_refl _⟩

theorem key?_eq {part : Tree Action} {name : Span} (read : key? p part = some name) :
    part.action = .key ∧ name = trimmed p part.span := by
  unfold key? at read
  split at read <;> cases read
  exact ⟨‹_›, rfl⟩

theorem value?_eq {part : Tree Action} {content : Span} (read : value? p part = some content) :
    part.action = .value ∧ content = trimmed p part.span ∨
      part.action = .quotedValue ∧ content = part.span := by
  unfold value? at read
  split at read <;> cases read
  · exact .inl ⟨‹_›, rfl⟩
  · exact .inr ⟨‹_›, rfl⟩

theorem pair?_mem {parts : List (Tree Action)} {key : Span} {value : Option Span}
    (found : pair? p parts = some (key, value)) :
    key ∈ parts.filterMap (key? p) ∧ ∀ s ∈ value, s ∈ parts.filterMap (value? p) := by
  unfold pair? at found
  split at found
  · cases found
  · cases last : (parts.filterMap (key? p)).getLast? with
    | none => simp [last] at found
    | some key' =>
      simp only [last, Option.bind_eq_bind, Option.bind_some, Option.pure_def, Option.some.injEq,
        Prod.mk.injEq] at found
      obtain ⟨rfl, rfl⟩ := found
      exact ⟨List.mem_of_getLast? last, fun s here => List.mem_of_getLast? here⟩

/-- The spans of calls are those of trees or of their children, stripped or as they are. -/
theorem span_of_call {f : List (Tree Action)} {inSection : Bool} {call : Call} {span : Span}
    (made : call ∈ calls p inSection f) (shown : span ∈ call.spans) :
    ∃ tree ∈ f, ∃ part ∈ tree :: tree.children, span = trimmed p part.span ∨ span = part.span := by
  induction f generalizing inSection with
  | nil => cases made
  | cons tree f ih =>
    have later {inSection : Bool} (made : call ∈ calls p inSection f) :
        ∃ tree' ∈ tree :: f, ∃ part ∈ tree' :: tree'.children,
          span = trimmed p part.span ∨ span = part.span := by
      obtain ⟨tree', member, found⟩ := ih made
      exact ⟨tree', List.mem_cons_of_mem _ member, found⟩
    rw [calls] at made
    split at made
    next named =>
      rcases List.mem_cons.mp made with rfl | made
      · exact ⟨tree, List.mem_cons_self .., tree, List.mem_cons_self ..,
          .inl (List.mem_singleton.mp shown)⟩
      · exact later made
    next named =>
      split at made
      next key value found =>
        rcases List.mem_cons.mp made with rfl | made
        · obtain ⟨keyed, valued⟩ := pair?_mem found
          have shown : span = key ∨ span ∈ value := by
            cases inSection <;> simpa [Call.spans] using shown
          refine ⟨tree, List.mem_cons_self .., ?_⟩
          rcases shown with rfl | shown
          · obtain ⟨part, among, read⟩ := List.mem_filterMap.mp keyed
            exact ⟨part, List.mem_cons_of_mem _ among, .inl (key?_eq read).2⟩
          · obtain ⟨part, among, read⟩ := List.mem_filterMap.mp (valued span shown)
            exact ⟨part, List.mem_cons_of_mem _ among, (value?_eq read).imp And.right And.right⟩
        · exact later made
      next => exact later made
    next => exact later made

/-- The calls for a journal show parts of its source, inside the range of the journal. -/
theorem calls_inside {source : Source} {start stop : Nat} {f : List (Tree Action)}
    (nests : Nests source start f stop) (inSection : Bool) :
    ∀ call ∈ calls p inSection f, ∀ span ∈ call.spans, span.Inside source start stop := by
  intro call made span shown
  obtain ⟨tree, member, part, among, rfl | rfl⟩ := span_of_call made shown
  · obtain ⟨same, first, last⟩ := nests.inside_of_mem tree member part among
    obtain ⟨start, stop⟩ := trimmed_ends p part.span
    exact ⟨(trimmed_source p part.span).trans same, by omega, by omega⟩
  · exact nests.inside_of_mem tree member part among

theorem calls_source {source : Source} {start stop : Nat} {f : List (Tree Action)}
    (nests : Nests source start f stop) (inSection : Bool) :
    ∀ call ∈ calls p inSection f, ∀ span ∈ call.spans, span.source = source :=
  fun call made span shown => (calls_inside nests inSection call made span shown).1

/-- The calls for a journal that is moved along. -/
theorem calls_displace (holds : HoldsAt outer offset inner) {start stop : Nat}
    {f : List (Tree Action)} (nests : Nests inner start f stop) (inSection : Bool) :
    calls p inSection (f.map (Tree.displace outer offset)) =
      (calls p inSection f).map (Call.displace outer offset) := by
  induction nests generalizing inSection with
  | nil => rfl
  | @cons _ _ action children trees span _ inSource nested _ _ ih =>
    have name := trimmed_displace (p := p) holds inSource
    have pair := pair?_displace (p := p) holds nested.source_of_mem
    rw [List.map_cons, Tree.displace, calls, calls]
    simp only [Tree.action, Tree.span, Tree.children, name, pair]
    cases action with
    | sectionName => simp [ih, Call.displace, Call.mapSpans]
    | keyValue =>
      rcases pair? p children with _ | ⟨key, value⟩
      · exact ih inSection
      · cases inSection <;> simp [ih, Call.displace, Call.mapSpans]
    | _ => exact ih inSection

end Config

end Backtrack
