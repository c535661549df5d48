import Backtrack.Proofs.Outlasting
import Backtrack.Proofs.Slice

/-! Two parses of one caller under different budgets. The caller is shown the driver, so it may
notice the budget; all that is asked is that it answers in the same way. Two states of such a caller
are carried through one parse side by side, and each half is a parse of the caller. -/
namespace Backtrack

variable {σ τ α β : Type}

/-- What an operation answers, whatever state it leaves. -/
def answer {ε : Type} : EStateM.Result ε τ β → Except ε β
  | .ok result _ => .ok result
  | .error stop _ => .error stop

theorem Simulates.of_parts {A B ε : Type} {g : A → B} {x : EStateM ε A β} {y : EStateM ε B β}
    (answered : ∀ s, answer (y (g s)) = answer (x s))
    (left : ∀ s, lastState (y (g s)) = g (lastState (x s))) : Simulates g x y := by
  intro s
  have answered := answered s
  have left := left s
  generalize x s = r at *
  generalize y (g s) = r' at *
  cases r <;> cases r' <;> cases answered <;> cases left <;> rfl

theorem Host.noted_parts (host : Host σ α) (driver : Driver) (forest : List (Tree α))
    (w : Noted σ α) :
    answer (host.noted.replay driver forest w) = answer (host.replay driver forest w.world) ∧
      lastState (host.noted.replay driver forest w) = ⟨w.received, w.journals ++ [forest],
        lastState (host.replay driver forest w.world)⟩ := by
  simp only [noted]
  cases host.replay driver forest w.world <;> exact ⟨rfl, rfl⟩

/-- Callers whose states are alike answer in the same way under the two drivers, and stay alike. -/
structure Host.Indifferent (host : Host σ α) (alike : σ → σ → Prop) (d e : Driver) : Prop where
  told : ∀ {w w'} notice, alike w w' → alike (host.sink d w notice).1 (host.sink e w' notice).1
  replies : ∀ {w w'} notice, alike w w' → (host.sink e w' notice).2 = (host.sink d w notice).2
  replayed : ∀ {w w'} forest, alike w w' →
    alike (lastState (host.replay d forest w)) (lastState (host.replay e forest w'))
  judges : ∀ {w w'} forest, alike w w' →
    answer (host.replay e forest w') = answer (host.replay d forest w)

namespace Host

variable {host : Host σ α} {alike : σ → σ → Prop} {d e : Driver}

/-- Two callers whose states are alike as one. The first answers for both. -/
def paired (indifferent : host.Indifferent alike d e) : Host {w : σ × σ // alike w.1 w.2} α where
  sink _ w notice :=
    (⟨((host.sink d w.1.1 notice).1, (host.sink e w.1.2 notice).1), indifferent.told notice w.2⟩,
      (host.sink d w.1.1 notice).2)
  replay _ forest := fun w =>
    let after : {w : σ × σ // alike w.1 w.2} :=
      ⟨(lastState (host.replay d forest w.1.1), lastState (host.replay e forest w.1.2)),
        indifferent.replayed forest w.2⟩
    match answer (host.replay d forest w.1.1) with
    | .ok valid => .ok valid after
    | .error fault => .error fault after

theorem paired_parts (indifferent : host.Indifferent alike d e) (driver : Driver)
    (forest : List (Tree α)) (w : {w : σ × σ // alike w.1 w.2}) :
    answer ((host.paired indifferent).replay driver forest w) =
        answer (host.replay d forest w.1.1) ∧
      (lastState ((host.paired indifferent).replay driver forest w)).1 =
        (lastState (host.replay d forest w.1.1), lastState (host.replay e forest w.1.2)) := by
  simp only [paired]
  cases answer (host.replay d forest w.1.1) <;> exact ⟨rfl, rfl⟩

end Host

/-- The notes of another caller. -/
def Noted.onWorld (g : σ → τ) (w : Noted σ α) : Noted τ α := ⟨w.received, w.journals, g w.world⟩

namespace Driver

variable {host : Host σ α} {alike : σ → σ → Prop} {d e : Driver} {rule : Rule α}
  {source : Source} {start stop : Nat} {world : σ}

theorem parse_first (indifferent : host.Indifferent alike d.inside e.inside)
    (initial : alike world world) :
    let pair := d.parse (host.paired indifferent).noted rule source start stop
      { world := ⟨(world, world), initial⟩ }
    d.parse host.noted rule source start stop { world } =
      ⟨pair.driver, pair.world.onWorld (·.1.1), pair.outcome⟩ := by
  refine parse_simulates (Noted.onWorld (·.1.1)) d (host.paired indifferent).noted host.noted
    (fun _ _ => rfl) (fun forest => ?_) rule source start stop { world := ⟨(world, world), initial⟩ }
  refine Simulates.of_parts (fun w => ?_) fun w => ?_
  all_goals
    obtain ⟨answered, left⟩ := Host.paired_parts indifferent d.inside forest w.world
    obtain ⟨noted, after⟩ := host.noted_parts d.inside forest (w.onWorld (·.1.1))
    obtain ⟨noted', after'⟩ := (host.paired indifferent).noted_parts d.inside forest w
  · exact noted.trans (answered.symm.trans noted'.symm)
  · refine after.trans ?_
    simp only [after', Noted.onWorld, left]

theorem parse_second (indifferent : host.Indifferent alike d.inside e.inside)
    (initial : alike world world) :
    let pair := e.parse (host.paired indifferent).noted rule source start stop
      { world := ⟨(world, world), initial⟩ }
    e.parse host.noted rule source start stop { world } =
      ⟨pair.driver, pair.world.onWorld (·.1.2), pair.outcome⟩ := by
  refine parse_simulates (Noted.onWorld (·.1.2)) e (host.paired indifferent).noted host.noted
    (fun w notice => ?_) (fun forest => ?_) rule source start stop
    { world := ⟨(world, world), initial⟩ }
  · simp only [Host.noted, Host.paired, Noted.onWorld, indifferent.replies notice w.world.2]
  refine Simulates.of_parts (fun w => ?_) fun w => ?_
  all_goals
    obtain ⟨answered, left⟩ := Host.paired_parts indifferent e.inside forest w.world
    obtain ⟨noted, after⟩ := host.noted_parts e.inside forest (w.onWorld (·.1.2))
    obtain ⟨noted', after'⟩ := (host.paired indifferent).noted_parts e.inside forest w
  · have judged := indifferent.judges forest w.world.2
    exact noted.trans (judged.trans (answered.symm.trans noted'.symm))
  · refine after.trans ?_
    simp only [after', Noted.onWorld, left]

theorem noted_logs {host : Host σ α}
    (attached : ∀ driver world notice, (host.sink driver world notice).2 ≠ .detach) (d : Driver)
    (source : Source) (stop : Nat) :
    (d.monitor host.noted source stop).Logs Noted.received :=
  ⟨fun _ _ => rfl, fun w notice => attached d.inside w.world notice⟩

theorem noted_reads (host : Host σ α) (driver : Driver) (forest : List (Tree α)) (w : Noted σ α) :
    w.received <+: (lastState (host.noted.replay driver forest w)).received := by
  have left := (host.noted_parts driver forest w).2
  exact left.symm ▸ List.prefix_refl _

end Driver

/-- The budget only truncates. Let the sink never detach, and let the caller do alike under two
budgets of which the second is not smaller. A parse that is not aborted under the first has under the
second the same result, the same report, the same messages and the same journal; what the caller
makes of them is alike. Of a parse that is aborted under the first, all that was sent before the
closing pair is sent under the second too, and in the beginning. -/
theorem parse_truncates (d : Driver) (host : Host σ α) (rule : Rule α) (source : Source)
    (start stop : Nat) (world : σ) (small large : Nat) (alike : σ → σ → Prop) (outcome : Outcome)
    (ordered : small ≤ large) (accepted : Driver.refuse? source.size start stop = none)
    (attached : ∀ driver world notice, (host.sink driver world notice).2 ≠ .detach)
    (indifferent : host.Indifferent alike (d.withBudget small).inside (d.withBudget large).inside)
    (initial : alike world world)
    (returned : ((d.withBudget small).parse host rule source start stop world).outcome =
      .ok outcome) :
    let few := (d.withBudget small).parse host.noted rule source start stop { world }
    let many := (d.withBudget large).parse host.noted rule source start stop { world }
    (d.withBudget small).parse host rule source start stop world =
      ⟨few.driver, few.world.world, few.outcome⟩ ∧
    (d.withBudget large).parse host rule source start stop world =
      ⟨many.driver, many.world.world, many.outcome⟩ ∧
    (outcome ≠ .aborted →
      many.outcome = .ok outcome ∧ many.driver.lastReport = few.driver.lastReport ∧
      many.driver = few.driver.withBudget large ∧
      many.world.received = few.world.received ∧ many.world.journals = few.world.journals ∧
      alike few.world.world many.world.world) ∧
    (outcome = .aborted → ∃ sent restated,
      few.world.received = sent ++ closingPair restated ∧ sent <+: many.world.received) := by
  intro few many
  have transparent := (d.withBudget small).parse_noted host rule source start stop world
  refine ⟨transparent, (d.withBudget large).parse_noted host rule source start stop world, ?_⟩
  rw [transparent] at returned
  let p := d.withBudget small
  by_cases busy : d.busy = true
  · have few_eq : few = ⟨p, { world }, .ok .parsingNow⟩ :=
      Driver.parse_busy (d := p) busy ..
    have many_eq : many = ⟨p.withBudget large, { world }, .ok .parsingNow⟩ :=
      Driver.parse_busy (d := d.withBudget large) busy ..
    have told : few.outcome = .ok outcome := returned
    rw [few_eq] at told
    cases told
    rw [few_eq, many_eq]
    exact ⟨fun _ => ⟨rfl, rfl, rfl, rfl, rfl, initial⟩, nofun⟩
  have idle : p.busy = false := eq_false_of_ne_true busy
  let pair := host.paired indifferent
  let both : Noted {w : σ × σ // alike w.1 w.2} α := { world := ⟨(world, world), initial⟩ }
  let fewer := p.parse pair.noted rule source start stop both
  have first : few = ⟨fewer.driver, fewer.world.onWorld (·.1.1), fewer.outcome⟩ :=
    Driver.parse_first indifferent initial
  have second : many = _ := Driver.parse_second indifferent initial
  have told : fewer.outcome = .ok outcome := (congrArg (·.outcome) first).symm.trans returned
  have detaches (driver : Driver) (w : {w : σ × σ // alike w.1 w.2}) (notice : Notice) :
      (pair.sink driver w notice).2 ≠ .detach := attached _ _ notice
  have enough : p.budget ≤ max large leastBudget := by
    change max small leastBudget ≤ _
    omega
  obtain ⟨unstopped, stopped⟩ := Driver.parse_outlasts (max large leastBudget) rule start rfl rfl
    enough (Driver.noted_logs detaches p source stop) (Driver.noted_reads pair p.inside) idle accepted
    told
  refine ⟨fun going => ?_, fun aborted => ?_⟩
  · have same : (d.withBudget large).parse pair.noted rule source start stop both =
        { fewer with driver := fewer.driver.withBudget large } := unstopped going
    rw [second, same, first]
    exact ⟨told, rfl, rfl, rfl, rfl, fewer.world.world.2⟩
  · obtain ⟨sent, restated, closing, begun⟩ := stopped aborted
    rw [second, first]
    exact ⟨sent, restated, closing, begun⟩

/-- Five errors on one byte, for a caller that adds the budget up at each message. -/
theorem parse_truncates_alarms :
    let host : Host Nat Nat :=
      ⟨fun driver sum _ => (sum + driver.budget, .keep), fun _ _ => pure true⟩
    let alarm (rule : Rule Nat) := rule.sendNow (.minor "alarm")
    let rule := alarm (alarm (alarm (alarm (alarm (Rule.literal [0x61])))))
    let d : Driver := {}
    let few := (d.withBudget 4).parse host.noted rule #[0x61] 0 1 { world := 0 }
    let many := (d.withBudget 6).parse host.noted rule #[0x61] 0 1 { world := 0 }
    4 ≤ 6 ∧ Driver.refuse? (#[0x61] : Source).size 0 1 = none ∧
    (∀ driver world notice, (host.sink driver world notice).2 ≠ .detach) ∧
    host.Indifferent (fun _ _ => True) (d.withBudget 4).inside (d.withBudget 6).inside ∧
    ((d.withBudget 4).parse host rule #[0x61] 0 1 0).outcome = .ok .aborted ∧
    many.outcome = .ok .allValid ∧ ∃ sent restated,
      few.world.received = sent ++ closingPair restated ∧ sent <+: many.world.received := by
  intro host alarm rule d few many
  have accepted : Driver.refuse? (#[0x61] : Source).size 0 1 = none := by simp [Driver.refuse?]
  have attached : ∀ driver world notice, (host.sink driver world notice).2 ≠ .detach :=
    fun _ _ _ => nofun
  have indifferent : host.Indifferent (fun _ _ => True) (d.withBudget 4).inside
      (d.withBudget 6).inside := {
    told := fun _ _ => trivial
    replies := fun _ _ => rfl
    replayed := fun _ _ => trivial
    judges := fun _ _ => rfl }
  have returned : ((d.withBudget 4).parse host rule #[0x61] 0 1 0).outcome = .ok .aborted := rfl
  have ended : many.outcome = .ok .allValid := by decide +kernel
  obtain ⟨-, -, -, stopped⟩ := parse_truncates d host rule #[0x61] 0 1 0 4 6 (fun _ _ => True)
    .aborted (by omega) accepted attached indifferent trivial returned
  exact ⟨by omega, accepted, attached, indifferent, returned, ended, stopped rfl⟩

end Backtrack
