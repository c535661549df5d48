import Backtrack.Files.Tree

/-! Files that are written and read back. A path leads to a file through the tree after it was
written as it led to its place before, however it goes about. -/
namespace Backtrack

theorem exists_of_bind_eq_ok {ε α β : Type} {x : Except ε α} {f : α → Except ε β} {b : β}
    (both : x >>= f = .ok b) : ∃ a, x = .ok a ∧ f a = .ok b := by
  cases x with
  | error e => cases both
  | ok a => exact ⟨a, rfl, both⟩

namespace FileTree

variable {tree new : FileTree} {names : List String} {name : String}
  {entries : List (String × FileTree)}

theorem at?_append (tree : FileTree) (names more : List String) :
    tree.at? (names ++ more) = (tree.at? names).bind (·.at? more) := by
  induction names generalizing tree with
  | nil => rfl
  | cons name names ih =>
    simp only [List.cons_append, at?]
    cases tree.child? name with
    | none => rfl
    | some child => exact ih child

/-- A new entry of a directory that is there. -/
theorem at?_put (there : tree.at? names = some (directory entries)) :
    (tree.put (names ++ [name]) new).at? names = some (directory (Assoc.set name new entries)) := by
  induction names generalizing tree with
  | nil =>
    cases there
    simp [put, at?]
  | cons first names ih =>
    cases tree with
    | file bytes => cases there
    | directory inside =>
      obtain ⟨child, found, below⟩ := Option.bind_eq_some_iff.mp there
      have found : inside.lookup first = some child := found
      simp only [List.cons_append, put, at?, child?, found, Option.getD_some, Assoc.lookup_set,
        Option.bind_some]
      exact ih below

/-- A directory that has the entries of another at least. -/
def Holds (entries : List (String × FileTree)) (tree : Option FileTree) : Prop :=
  ∃ more, tree = some (directory more) ∧
    ∀ name, (entries.lookup name).isSome = true → (more.lookup name).isSome = true

theorem at?_step (step : String) (place : List String) :
    (directory entries).at? (step :: place) = (entries.lookup step).bind (·.at? place) := rfl

/-- A file that is put where no directory is leaves all directories. -/
theorem holds_put {bytes : Bytes} {inside : List (String × FileTree)}
    (there : tree.at? names = some (directory inside))
    (free : ∀ below, inside.lookup name ≠ some (directory below)) {place : List String}
    (found : tree.at? place = some (directory entries)) :
    Holds entries ((tree.put (names ++ [name]) (file bytes)).at? place) := by
  induction place generalizing tree names with
  | nil =>
    cases found
    cases names <;> exact ⟨_, rfl, fun _ => Assoc.isSome_lookup_set _⟩
  | cons step place ih =>
    cases tree with
    | file bytes => cases found
    | directory top =>
      have unchanged {other : String} (child : FileTree) (apart : step ≠ other) :
          Holds entries ((directory (Assoc.set other child top)).at? (step :: place)) := by
        rw [at?_step, Assoc.lookup_set_ne child apart]
        exact ⟨entries, found, fun _ => id⟩
      obtain ⟨child, leads, found⟩ := Option.bind_eq_some_iff.mp found
      have leads : top.lookup step = some child := leads
      cases names with
      | nil =>
        cases there
        refine unchanged _ ?_
        rintro rfl
        cases child with
        | file bytes => cases place <;> cases found
        | directory below => exact free below leads
      | cons first names =>
        by_cases same : step = first
        · subst same
          rw [at?_step, leads] at there
          simp only [List.cons_append, put, at?_step, leads, Assoc.lookup_set, Option.getD_some,
            Option.bind_some]
          exact ih there found
        · exact unchanged _ same

/-- The end of a path to a file that can be written: a directory, and a name in it that no directory
has. -/
structure Spot (tree : FileTree) (path : String) (names : List String) (name : String) : Prop where
  leads : tree.target path = .ok (some names, name, false)
  free : ∃ inside, tree.at? names = some (directory inside) ∧
    ∀ below, inside.lookup name ≠ some (directory below)
  named : name ≠ "." ∧ name ≠ ".."
  short : name.utf8ByteSize ≤ maxNameSize

section

variable {path : String} {after : FileTree}

/-- Whether a file can be written does not rest on its bytes. -/
theorem Spot.write (spot : Spot tree path names name) (bytes : Bytes) :
    tree.write path bytes = .ok (tree.put (names ++ [name]) (file bytes)) := by
  obtain ⟨inside, there, free⟩ := spot.free
  have named : ¬ (name = "." || name = "..") = true := by simp [spot.named]
  have short : ¬ maxNameSize < name.utf8ByteSize := Nat.not_lt.mpr spot.short
  simp only [FileTree.write, spot.leads, there, bind, Except.bind, if_neg named, if_neg short]
  cases found : inside.lookup name with
  | none => rfl
  | some child =>
    cases child with
    | file bytes => rfl
    | directory below => exact absurd found (free below)

/-- Where a file that was written is. -/
theorem write_spot {bytes : Bytes} (written : tree.write path bytes = .ok after) :
    ∃ names name, Spot tree path names name ∧
      after = tree.put (names ++ [name]) (file bytes) := by
  suffices ∃ names name, Spot tree path names name by
    obtain ⟨names, name, spot⟩ := this
    exact ⟨names, name, spot, Except.ok.inj (written.symm.trans (spot.write bytes))⟩
  obtain ⟨⟨place, name, slash⟩, leads, written⟩ := exists_of_bind_eq_ok written
  dsimp only at written
  split at written
  · cases written
  next names =>
    split at written
    next inside there =>
      by_cases special : (name = "." || name = "..") = true
      · rw [if_pos special] at written
        cases written
      · by_cases long : maxNameSize < name.utf8ByteSize
        · rw [if_neg special, if_pos long] at written
          cases written
        · rw [if_neg special, if_neg long] at written
          have free (below : List (String × FileTree)) :
              inside.lookup name ≠ some (directory below) := by
            intro found
            rw [found] at written
            cases written
          cases slash with
          | false =>
            exact ⟨names, name, leads, ⟨inside, there, free⟩, by simpa using special,
              Nat.not_lt.mp long⟩
          | true =>
            rcases found : inside.lookup name with _ | (_ | _) <;>
            · rw [found] at written
              cases written
    · cases written

end

/-- Wherever a tree has a directory, another has one with its entries at least. -/
def Widens (tree other : FileTree) : Prop :=
  ∀ names entries, tree.at? names = some (directory entries) → Holds entries (other.at? names)

section

variable {other : FileTree} (widens : tree.Widens other) {place next : Place}

include widens

theorem Widens.step {component : String} (leads : tree.step place component = .ok next) :
    other.step place component = .ok next := by
  cases place with
  | none => exact leads
  | some names =>
    unfold FileTree.step at leads ⊢
    dsimp only at leads ⊢
    split at leads
    · cases leads
    · cases leads
    next entries there =>
      obtain ⟨more, there', holds⟩ := widens names entries there
      rw [there']
      dsimp only
      split at leads
      next stays => rwa [if_pos stays]
      next stays =>
        rw [if_neg stays]
        split at leads
        next above => rwa [if_pos above]
        next above =>
          rw [if_neg above]
          split at leads
          · cases leads
          next short =>
            rw [if_neg short]
            split at leads
            next found => rwa [if_pos (holds component found)]
            · cases leads

theorem Widens.steps {components : List String}
    (leads : components.foldlM tree.step place = .ok next) :
    components.foldlM other.step place = .ok next := by
  induction components generalizing place with
  | nil => exact leads
  | cons component components ih =>
    rw [List.foldlM_cons] at leads ⊢
    obtain ⟨middle, first, leads⟩ := exists_of_bind_eq_ok leads
    rw [widens.step first]
    exact ih leads

end

section

variable {path : String} {after : FileTree}

/-- The names on a path that no slash ends. -/
theorem target_split {place : Place} (leads : tree.target path = .ok (place, name, false)) :
    '\x00' ∉ path.toList ∧ name ≠ "" ∧ ∃ above, Path.split path = above ++ [name] ∧
      above.foldlM tree.step (if Path.isAbsolute path then none else some []) = .ok place := by
  unfold target at leads
  by_cases nul : '\x00' ∈ path.toList
  · rw [if_pos nul] at leads
    cases leads
  · rw [if_neg nul] at leads
    dsimp only at leads
    split at leads
    · cases leads
    next last above shape =>
      obtain ⟨reached, steps, same⟩ := exists_of_bind_eq_ok leads
      have same : (reached, last, (Path.split path).reverse.head? == some "") =
          (place, name, false) := Except.ok.inj same
      simp only [Prod.mk.injEq] at same
      obtain ⟨rfl, rfl, noSlash⟩ := same
      cases pieces : (Path.split path).reverse with
      | nil =>
        rw [pieces] at shape
        cases shape
      | cons first others =>
        have filled : first ≠ "" := by
          rw [pieces] at noSlash
          simpa using noSlash
        rw [pieces, List.dropWhile_cons_of_neg (by simpa using filled)] at shape
        cases shape
        refine ⟨nul, filled, above.reverse, ?_, steps⟩
        simpa using congrArg List.reverse pieces

/-- What is written is found. -/
theorem find_written {bytes : Bytes} (written : tree.write path bytes = .ok after) :
    after.find path = .ok (file bytes) := by
  obtain ⟨names, name, spot, rfl⟩ := write_spot written
  obtain ⟨clean, filled, above, split, leads⟩ := target_split spot.leads
  obtain ⟨inside, there, free⟩ := spot.free
  have widens : tree.Widens (tree.put (names ++ [name]) (file bytes)) :=
    fun _ _ found => holds_put there free found
  have notEmpty : path ≠ "" := by
    rintro rfl
    have last := congrArg List.getLast? split
    rw [List.getLast?_concat] at last
    exact filled (Option.some.inj (last.symm.trans (by decide)))
  have last : (tree.put (names ++ [name]) (file bytes)).step (some names) name =
      .ok (some (names ++ [name])) := by
    unfold FileTree.step
    dsimp only
    rw [at?_put there]
    simp [filled, spot.named, Nat.not_lt.mpr spot.short]
  have resolved : (tree.put (names ++ [name]) (file bytes)).resolve path =
      .ok (some (names ++ [name])) := by
    rw [resolve, if_neg clean, if_neg notEmpty, split, List.foldlM_append, widens.steps leads]
    change FileTree.step _ (some names) name >>= pure = _
    rw [last]
    rfl
  have end' : (tree.put (names ++ [name]) (file bytes)).at? (names ++ [name]) =
      some (file bytes) := by
    rw [at?_append, at?_put there, Option.bind_some, at?_step, Assoc.lookup_set]
    rfl
  simp only [find, resolved, end', bind, Except.bind, pure, Except.pure]

theorem read_written {bytes : Bytes} (written : tree.write path bytes = .ok after) :
    after.read path = .ok bytes ∧ after.isPresent path = true := by
  have found := find_written written
  refine ⟨?_, ?_⟩
  · rw [read, found]
    rfl
  · rw [isPresent, found]
    rfl

end

end FileTree
end Backtrack
