import Backtrack.Cli.Run
import Backtrack.Proofs.CommandLines
import Backtrack.Proofs.History
import Backtrack.Proofs.SteadyFiles
import Backtrack.Proofs.Verdicts

/-! Runs over several files. The parser is used for one file after the other, and each file prints
what it prints alone: a run over many is the runs over each, one behind the other. Nothing that such
a run does changes the files. -/
namespace Backtrack

variable {σ α : Type}

section

variable {files : Files (StateM σ)} (steady : files.Steady)

include steady

namespace Config

theorem contentsOf_looks (path : String) : Looks (contentsOf files path) := by
  refine .ite (.pure _) ((steady.read path).bind fun contents => ?_)
  split <;> exact .pure _

theorem Parser.parseFile_looks {τ : Type} (p : Parser) (path : String) (client : Client τ)
    (world : τ) : Looks (p.parseFile files path client world) := by
  refine (contentsOf_looks steady path).bind fun contents => ?_
  split <;> exact .pure _

end Config

namespace Cli

theorem requestedPolicy_looks (home : String) (request : ConfigRequest) :
    Looks (requestedPolicy files home request) := by
  refine (Config.Policy.load_looks steady _).bind fun loaded => ?_
  split <;> exact .pure _

theorem runFiles_looks (p : Config.Parser) (paths : List String) :
    Looks (runFiles files p paths) := by
  induction paths generalizing p with
  | nil => exact .pure ({} : Printed)
  | cons path paths ih =>
    refine (p.parseFile_looks steady path _ _).bind fun parsed => ?_
    split
    · exact (ih _).bind fun _ => .pure _
    · exact .pure _

theorem runConfig_looks (home : String) (request : ConfigRequest) :
    Looks (runConfig files home request) := by
  refine (requestedPolicy_looks steady home request).bind fun requested => ?_
  split
  · exact .pure _
  · split
    · exact .pure _
    · exact (steady.expand _).bind fun _ => runFiles_looks steady _ _

end Cli

end

namespace Config

/-- A parser that has served other requests parses a file as any other does. -/
theorem Parser.Serves.parseFile {policy : Policy} {p q : Parser} (here : p.Serves policy)
    (there : q.Serves policy) {τ : Type} {client : Client τ} (calm : client.Calm)
    (outside : client.Outside) (files : Files (StateM σ)) (path : String) (world : τ) (s : σ) :
    let first := (p.parseFile files path client world s).1
    let second := (q.parseFile files path client world s).1
    first.parser.Serves policy ∧ first.world = second.world ∧
      ∃ outcome, first.outcome = .ok outcome ∧ second.outcome = .ok outcome := by
  have shown (p : Parser) : p.parseFile files path client world s =
      match contentsOf files path s with
      | (.error error, after) => (⟨p, world, .ok error.outcome⟩, after)
      | (.ok contents, after) => (p.parse contents.toArray client world, after) := by
    rcases read : contentsOf files path s with ⟨error | contents, after⟩ <;>
      simp only [Parser.parseFile, bind, StateT.bind, read] <;> rfl
  simp only [shown]
  rcases contentsOf files path s with ⟨error | contents, after⟩
  · exact ⟨here, rfl, _, rfl, rfl⟩
  · let source := contents.toArray
    obtain ⟨outcome, answered⟩ := calm.answered q source 0 source.size world
    obtain ⟨same, worlds⟩ := parse_eq_parse here there outside source 0 source.size world
    have kept := service_keeps.serve policy p world
      ⟨[], source, 0, source.size, client⟩ here
    exact ⟨kept, worlds, outcome, same.trans answered, answered⟩

end Config

namespace Cli

namespace Transcription

theorem configClient_calm (label : String) : (configClient label).Calm where
  receiver _ _ _ _ := nofun
  sink _ _ _ _ := nofun

theorem configClient_outside (label : String) : (configClient label).Outside :=
  fun _ _ _ _ => ⟨rfl, rfl⟩

end Transcription

namespace Printed

/-- What parts of a run print in their order. -/
def joined (parts : List Printed) : Printed := parts.foldr followedBy {}

@[simp] theorem joined_nil : joined [] = {} := rfl

@[simp] theorem joined_cons (first : Printed) (parts : List Printed) :
    joined (first :: parts) = first.followedBy (joined parts) := rfl

@[simp] theorem followedBy_nothing (p : Printed) : p.followedBy {} = p := by simp [followedBy]

@[simp] theorem nothing_followedBy (p : Printed) : followedBy {} p = p := by simp [followedBy]

theorem followedBy_assoc (p q r : Printed) :
    (p.followedBy q).followedBy r = p.followedBy (q.followedBy r) := by
  simp [followedBy, Nat.max_assoc]

theorem joined_append (parts more : List Printed) :
    joined (parts ++ more) = (joined parts).followedBy (joined more) := by
  induction parts with
  | nil => simp
  | cons first parts ih => simp [ih, followedBy_assoc]

theorem joined_flatMap (f : α → List Printed) (xs : List α) :
    joined (xs.flatMap f) = joined (xs.map fun x => joined (f x)) := by
  induction xs with
  | nil => rfl
  | cons x xs ih => simp [joined_append, ih]

theorem joined_out (parts : List Printed) : (joined parts).out = parts.flatMap (·.out) := by
  induction parts with
  | nil => rfl
  | cons first parts ih => simp [followedBy, ih]

theorem joined_err (parts : List Printed) : (joined parts).err = parts.flatMap (·.err) := by
  induction parts with
  | nil => rfl
  | cons first parts ih => simp [followedBy, ih]

theorem joined_code (parts : List Printed) :
    (joined parts).code = 0 ↔ ∀ part ∈ parts, part.code = 0 := by
  induction parts with
  | nil => simp
  | cons first parts ih => simp only [joined_cons, followedBy, Nat.max_eq_zero_iff, ih, List.forall_mem_cons]

end Printed

section

variable {files : Files (StateM σ)} (steady : files.Steady)

include steady

/-- Whatever the budget that is asked for, the policy of a run is one that is in order. -/
theorem requestedPolicy_inOrder {home : String} {request : ConfigRequest} {s : σ}
    {policy : Config.Policy} (loads : (requestedPolicy files home request s).1 = .ok policy) :
    policy.validate = .ok () := by
  have looks := Config.Policy.load_looks steady
  rw [requestedPolicy, (looks _).value_bind] at loads
  rcases loaded : (Config.Policy.load files
      (request.policy.getD (Config.Policy.path home)) s).1 with error | _ | stored
  all_goals
    rw [loaded] at loads
    rcases asked : request.policy with _ | path
  all_goals
    rw [asked] at loads
    cases loads
  · rfl
  all_goals
    have inOrder := Config.Policy.load_inOrder steady loaded
    exact inOrder

/-- The first file's part of a run. -/
theorem runFiles_cons {p : Config.Parser} {path : String} {s : σ} {outcome : Outcome}
    (paths : List String)
    (ends : (p.parseFile files path (Transcription.configClient path) {} s).1.outcome =
      .ok outcome) :
    let parsed := (p.parseFile files path (Transcription.configClient path) {} s).1
    (runFiles files p (path :: paths) s).1 =
      (printed path parsed.world (.ok outcome)).followedBy
        (runFiles files parsed.parser paths s).1 := by
  have looks := p.parseFile_looks steady path (Transcription.configClient path) {}
  intro parsed
  rw [runFiles, looks.value_bind, ends]
  exact (runFiles_looks steady _ paths).value_bind _ s

/-- Whatever the parser was used for before, each file prints what it prints alone. -/
theorem runFiles_apart {policy : Config.Policy} {p : Config.Parser} (serves : p.Serves policy)
    (paths : List String) (s : σ) :
    (runFiles files p paths s).1 =
      .joined (paths.map fun path => (runFiles files (.build policy) [path] s).1) := by
  induction paths generalizing p with
  | nil => rfl
  | cons path paths ih =>
    have anew := Config.Parser.build_serves policy
    obtain ⟨kept, worlds, outcome, ends, endsAlone⟩ :=
      serves.parseFile anew (Transcription.configClient_calm path)
        (Transcription.configClient_outside path) files path {} s
    rw [runFiles_cons steady paths ends, ih kept, List.map_cons, Printed.joined_cons,
      runFiles_cons steady [] endsAlone, worlds]
    congr 1
    exact (Printed.followedBy_nothing _).symm

/-- A run on patterns whose policy is loaded. -/
theorem runConfig_apart {home : String} {request : ConfigRequest} {s : σ} {policy : Config.Policy}
    (loads : (requestedPolicy files home request s).1 = .ok policy) :
    (runConfig files home request s).1 = .joined (request.patterns.map fun text =>
      (runConfig files home { request with patterns := [text] } s).1) := by
  have anew := Config.Parser.build_serves policy
  have run (patterns : List String) :
      (runConfig files home { request with patterns } s).1 =
        .joined (patterns.map fun text =>
          (runFiles files (.build policy) (Glob.named files text s).1 s).1) := by
    have ready : Config.Parser.ofPolicy policy = .ok (.build policy) := by
      rw [Config.Parser.ofPolicy, requestedPolicy_inOrder steady loads]
      rfl
    calc (runConfig files home { request with patterns } s).1
      _ = (runFiles files (.build policy) (Glob.expand files patterns s).1 s).1 := by
        rw [runConfig, (requestedPolicy_looks steady home _).value_bind]
        have loads : (requestedPolicy files home { request with patterns } s).1 = .ok policy :=
          loads
        simp only [loads, ready]
        exact (steady.expand patterns).value_bind _ s
      _ = _ := by
        rw [runFiles_apart steady anew, steady.value_expand, List.map_flatMap,
          Printed.joined_flatMap]
        simp only [← runFiles_apart steady anew]
  rw [run request.patterns]
  simp [run]

end

end Cli
end Backtrack
