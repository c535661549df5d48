import Backtrack.Config.PolicyFile
import Backtrack.Files.Glob
import Backtrack.Files.Tree

/-! Computations that look at files and leave them as they are. Looking up patterns and loading a
policy are such, on any file system where reading changes nothing; what comes next starts from the
same files, so each answer is told from the files alone. -/
namespace Backtrack

variable {σ α β : Type}

/-- A computation that leaves the state as it is. -/
def Looks (x : StateM σ α) : Prop := ∀ s, (x s).2 = s

namespace Looks

theorem pure (a : α) : Looks (pure a : StateM σ α) := fun _ => rfl

theorem bind {x : StateM σ α} {f : α → StateM σ β} (first : Looks x) (rest : ∀ a, Looks (f a)) :
    Looks (x >>= f) := by
  intro s
  change (f (x s).1 (x s).2).2 = s
  rw [rest, first]

theorem mapM {f : α → StateM σ β} (each : ∀ a, Looks (f a)) (xs : List α) :
    Looks (xs.mapM f) := by
  induction xs with
  | nil => exact pure []
  | cons x xs ih =>
    rw [List.mapM_cons]
    exact (each x).bind fun b => ih.bind fun bs => pure (b :: bs)

theorem ite {c : Prop} [Decidable c] {x y : StateM σ α} (yes : Looks x) (no : Looks y) :
    Looks (if c then x else y) := by
  split
  · exact yes
  · exact no

/-- What comes next starts from the same state. -/
theorem value_bind {x : StateM σ α} (first : Looks x) (f : α → StateM σ β) (s : σ) :
    ((x >>= f) s).1 = (f (x s).1 s).1 := by
  change (f (x s).1 (x s).2).1 = _
  rw [first]

theorem value_mapM {f : α → StateM σ β} (each : ∀ a, Looks (f a)) (xs : List α) (s : σ) :
    (xs.mapM f s).1 = xs.map fun x => (f x s).1 := by
  induction xs with
  | nil => rfl
  | cons x xs ih =>
    rw [List.mapM_cons, (each x).value_bind, (mapM each xs).value_bind, ih]
    rfl

end Looks

/-- Reading leaves the files as they are. -/
structure Files.Steady (files : Files (StateM σ)) : Prop where
  read : ∀ path, Looks (files.read path)
  isPresent : ∀ path, Looks (files.isPresent path)
  isDirectory : ∀ path, Looks (files.isDirectory path)
  entries : ∀ path, Looks (files.entries path)

theorem FileTree.files_steady : FileTree.files.Steady :=
  ⟨fun _ _ => rfl, fun _ _ => rfl, fun _ _ => rfl, fun _ _ => rfl⟩

namespace Files.Steady

variable {files : Files (StateM σ)} (steady : files.Steady)

include steady

mutual

theorem under (directoryOnly : Bool) (depth : Nat) (patterns : List (List Glob.Token))
    (base : String) : Looks (Glob.under files directoryOnly depth patterns base) := by
  rw [Glob.under.eq_def]
  cases patterns with
  | nil => exact .pure []
  | cons pattern rest =>
    refine (steady.isDirectory base).bind fun inside => ?_
    split
    next name _ =>
      have onward (found : Bool) := Looks.ite (c := found = true)
        (accept directoryOnly depth rest (Glob.extend base name)) (.pure [])
      exact .ite ((Looks.pure inside).bind onward) ((steady.isPresent _).bind onward)
    · refine .ite (.pure []) ?_
      cases depth with
      | zero => exact .pure []
      | succ depth =>
        have special := Looks.mapM
          (fun name => accept directoryOnly depth rest (Path.join base name)) (Glob.specials pattern)
        have listed := Looks.mapM fun name =>
          visit directoryOnly depth (pattern :: rest) name (Glob.extend base name)
        exact special.bind fun _ => (steady.entries base).bind fun _ =>
          (listed _).bind fun _ => .pure _
termination_by (depth, patterns.length, 1)

theorem accept (directoryOnly : Bool) (depth : Nat) (patterns : List (List Glob.Token))
    (path : String) : Looks (Glob.accept files directoryOnly depth patterns path) := by
  rw [Glob.accept.eq_def]
  cases patterns with
  | nil => exact (steady.isDirectory path).bind fun _ => .pure _
  | cons pattern rest => exact under directoryOnly depth (pattern :: rest) path
termination_by (depth, patterns.length, 2)

theorem visit (directoryOnly : Bool) (depth : Nat) (patterns : List (List Glob.Token))
    (name path : String) : Looks (Glob.visit files directoryOnly depth patterns name path) := by
  rw [Glob.visit.eq_def]
  cases patterns with
  | nil => exact .pure []
  | cons pattern rest =>
    refine .ite (.ite (accept directoryOnly depth rest path) (.pure [])) ?_
    cases rest with
    | nil =>
      exact (steady.isDirectory path).bind fun _ =>
        .ite ((under directoryOnly depth [pattern] path).bind fun _ => .pure _) (.pure [])
    | cons next others =>
      refine .ite (visit directoryOnly depth (next :: others) name path) ?_
      have below := under directoryOnly depth (pattern :: next :: others) path
      have onward (here : List String) := (steady.isDirectory path).bind fun inside =>
        Looks.ite (c := inside = true) (below.bind fun below => .pure (here ++ below))
          ((Looks.pure []).bind fun below => .pure (here ++ below))
      exact .ite ((accept directoryOnly depth others path).bind onward)
        ((Looks.pure []).bind onward)
termination_by (depth, patterns.length, 2)

end

theorem search (text : String) : Looks (Glob.search files text) := by
  unfold Glob.search
  split
  · exact .pure []
  · exact steady.under _ _ _ _

end Files.Steady

namespace Glob

variable {m : Type → Type} [Monad m]

/-- The files that one pattern stands for. -/
def named (files : Files m) (text : String) : m (List String) := do
  match ← search files text with
  | [] => return [text]
  | paths => return paths

theorem expand_eq (files : Files m) (patterns : List String) :
    expand files patterns = do
      let found ← patterns.mapM (named files)
      return found.flatten := rfl

end Glob

section

variable {files : Files (StateM σ)} (steady : files.Steady)

include steady

theorem Files.Steady.named (text : String) : Looks (Glob.named files text) := by
  refine (steady.search text).bind fun found => ?_
  cases found with
  | nil => exact .pure [text]
  | cons path paths => exact .pure (path :: paths)

theorem Files.Steady.expand (patterns : List String) : Looks (Glob.expand files patterns) := by
  rw [Glob.expand_eq]
  exact (Looks.mapM steady.named patterns).bind fun _ => .pure _

/-- Each pattern is looked up by itself. -/
theorem Files.Steady.value_expand (patterns : List String) (s : σ) :
    (Glob.expand files patterns s).1 = patterns.flatMap fun text => (Glob.named files text s).1 := by
  rw [Glob.expand_eq, (Looks.mapM steady.named patterns).value_bind,
    Looks.value_mapM steady.named, List.flatMap_def]
  rfl

end

namespace Config.Policy

/-- The policy that a file holds. -/
def held (path : String) (bytes : Bytes) : Except PolicyError Policy :=
  match Text.strict? bytes with
  | none => .error (.unreadable path "stream did not contain valid UTF-8")
  | some text =>
    match ofText? text with
    | none => .error (.malformed path)
    | some policy => policy.validate.map fun _ => policy

theorem held_inOrder {path : String} {bytes : Bytes} {policy : Policy}
    (found : held path bytes = .ok policy) : policy.validate = .ok () := by
  unfold held at found
  split at found
  · cases found
  · split at found
    · cases found
    next stored _ =>
      cases validated : stored.validate with
      | error error =>
        rw [validated] at found
        cases found
      | ok =>
        rw [validated] at found
        cases found
        exact validated

section

variable {files : Files (StateM σ)} (steady : files.Steady)

include steady

theorem load_looks (path : String) : Looks (load files path) := by
  refine (steady.isPresent path).bind fun present => .ite (.pure _) ?_
  refine (steady.read path).bind fun contents => ?_
  split
  · exact .pure _
  · split
    · exact .pure _
    · split
      · exact .pure _
      · exact .pure _

/-- What is loaded from a path, told from what is there. -/
theorem value_load (path : String) (s : σ) :
    (load files path s).1 =
      if (files.isPresent path s).1 then
        match (files.read path s).1 with
        | .error error => .error (.unreadable path error.message)
        | .ok bytes => (held path bytes).map some
      else .ok none := by
  rw [load, (steady.isPresent path).value_bind]
  cases (files.isPresent path s).1 with
  | false => rfl
  | true =>
    simp only [Bool.not_true, Bool.false_eq_true, if_false, if_true]
    rw [(steady.read path).value_bind]
    rcases (files.read path s).1 with error | bytes
    · rfl
    · dsimp only [held]
      cases Text.strict? bytes with
      | none => rfl
      | some text =>
        dsimp only
        cases ofText? text with
        | none => rfl
        | some policy =>
          dsimp only
          cases policy.validate <;> rfl

/-- A policy that is loaded is in order. -/
theorem load_inOrder {path : String} {s : σ} {policy : Policy}
    (loaded : (load files path s).1 = .ok (some policy)) : policy.validate = .ok () := by
  rw [value_load steady] at loaded
  split at loaded
  · split at loaded
    · cases loaded
    next bytes _ =>
      cases found : held path bytes with
      | error error =>
        rw [found] at loaded
        cases loaded
      | ok stored =>
        rw [found] at loaded
        cases loaded
        exact held_inOrder found
  · cases loaded

end

end Config.Policy
end Backtrack
