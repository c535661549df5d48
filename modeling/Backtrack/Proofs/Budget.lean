import Backtrack.Proofs.Accounting

/-! The error budget of a parse. The error that reaches the budget is the last one that is charged:
what remains is the closing pair, and nothing is replayed. A parse that ends in any other way has
kept its budget. -/
namespace Backtrack

variable {σ α : Type}

/-- The closing pair of an aborted parse. -/
def closingPair (restated : String) : List Notice :=
  [⟨.fatal "Too many errors found. Stopping parsing.", 0⟩, ⟨.fatal restated, 0⟩]

theorem Diagnostics.announceAbort_heard {m : Monitor (Watched σ)} (notes : m.Notes)
    (restatement : Option String) {d : Diagnostics (Watched σ)} (attached : d.detached = false) :
    Ends (fun _ d' => Heard (closingPair (restatement.getD (d.last.getD ""))) d.world d'.world ∧
        d'.report.errors = d.report.errors)
      (fun _ => False) (announceAbort m restatement d) := by
  let quiet : Diagnostics (Watched σ) := { d with last := none }
  change Ends _ _ ((deliver m ⟨.fatal "Too many errors found. Stopping parsing.", 0⟩ >>= fun _ =>
    deliver m ⟨.fatal (restatement.getD (d.last.getD "")), 0⟩ >>= fun _ =>
      modify fun d => { d with report.highest := max d.report.highest .fatal }) quiet)
  refine Ends.bind (deliver_heard (d := quiet) notes attached _) ?_
  rintro _ d₁ ⟨same₁, heard₁⟩
  refine Ends.bind (deliver_heard (d := d₁) notes (by rw [same₁, attached]) _) ?_
  rintro _ d₂ ⟨same₂, heard₂⟩
  have errors : d₂.report.errors = d.report.errors := by rw [same₂, same₁]
  exact ⟨heard₁.append heard₂, errors⟩

theorem Outcome.classify_ne_aborted (valid ateAll : Bool) :
    Outcome.classify valid ateAll ≠ .aborted := by
  cases valid <;> cases ateAll <;> nofun

theorem Solvent.replayed {m : Monitor (Watched σ)} {s : Matching (Watched σ) α}
    (solvent : Solvent m s.diagnostics) {host : EStateM Fault (Watched σ) Bool}
    (silent : ∀ w valid w', host w = .ok valid w' → w'.received = w.received) :
    Ends
      (fun _ s' => Solvent m s'.diagnostics ∧
        s'.diagnostics.world.received = s.diagnostics.world.received)
      (fun _ => False) (Driver.replay host s) := by
  unfold Driver.replay
  rcases read : host s.diagnostics.world with ⟨valid, w⟩ | ⟨fault, w⟩
  · have received := silent _ _ _ read
    refine ⟨⟨⟨solvent.attached, ?_⟩, solvent.within⟩, received⟩
    exact solvent.counted.trans (by rw [← received])
  · trivial

namespace Driver

variable {subject : Subject (Watched σ)}

/-- What follows the match keeps the account, or uses up the budget before anything is replayed. -/
theorem conclude_solvent (notes : subject.monitor.Notes)
    {host : List (Tree α) → EStateM Fault (Watched σ) Bool}
    (silent : ∀ forest w valid w', host forest w = .ok valid w' → w'.received = w.received)
    (m : Option Nat) {s : Matching (Watched σ) α}
    (solvent : Solvent subject.monitor s.diagnostics) :
    Ends
      (fun outcome s' => outcome ≠ .aborted ∧ Solvent subject.monitor s'.diagnostics ∧
        s.diagnostics.world.received <+: s'.diagnostics.world.received)
      (fun s' => Exhausted subject.monitor s'.diagnostics ∧
        ∃ notices, Heard notices s.diagnostics.world s'.diagnostics.world)
      (conclude subject host m s) := by
  cases m with
  | none =>
    have flushed := Ends.on_diagnostics (s := s) (solvent.flushAbandoned notes)
    refine Ends.bind flushed ?_
    rintro _ s₁ ⟨-, still, notices, heard⟩
    have sent := Ends.on_diagnostics (s := s₁)
      (still.send notes ⟨.fatal "Unable to finish parsing data.", 0⟩)
    refine Ends.bind (sent.mono (fun _ _ h => h) fun _ h => ⟨h.1, _, heard.append h.2⟩) ?_
    rintro _ s₂ ⟨-, last, more⟩
    exact ⟨nofun, last, _, (heard.append more).received.symm⟩
  | some next =>
    rw [conclude_some]
    split
    · trivial
    · cases Journal.forest subject.source s.events.toList with
      | error fault => trivial
      | ok forest =>
        have emptied : Solvent subject.monitor s.drained.diagnostics := solvent.of_stacks {} {}
        refine Ends.bind (emptied.replayed (silent forest)).never ?_
        rintro valid s₁ ⟨last, received⟩
        have kept : s₁.diagnostics.world.received = s.diagnostics.world.received := received
        exact ⟨Outcome.classify_ne_aborted valid _, last, [], by rw [kept, List.append_nil]⟩

/-- How an accepted parse ends after its match has sent `stream`: within the budget, or with the
closing pair behind the error that has used the budget up. -/
def Finishes (d : Driver) (stream : List Notice) (outcome : Outcome)
    (last : Diagnostics (Watched σ)) : Prop :=
  stream <+: last.world.received ∧
  (outcome ≠ .aborted ∧ last.report.errors < d.budget ∧
      last.report.errors = (errorsAmong last.world.received).length ∨
    outcome = .aborted ∧ last.report.errors = d.budget ∧ last.world.replays = 0 ∧
      ∃ sent final, last.world.received = sent ++ closingPair (d.restatement.getD final.text) ∧
        (errorsAmong sent).length = d.budget ∧ (errorsAmong sent)[d.budget - 1]? = some final)

theorem announced_finishes {d : Driver} {m : Monitor (Watched σ)} (notes : m.Notes)
    (budget : m.budget = d.budget) {stream : List Notice} {body : MatchM (Watched σ) α Outcome}
    {s : Matching (Watched σ) α}
    (h : Ends
      (fun outcome s' => outcome ≠ .aborted ∧ Solvent m s'.diagnostics ∧
        stream <+: s'.diagnostics.world.received)
      (fun s' => Exhausted m s'.diagnostics ∧ stream <+: s'.diagnostics.world.received ∧
        s'.diagnostics.world.replays = 0) (body s)) :
    Ends (fun outcome s' => d.Finishes stream outcome s'.diagnostics) (fun _ => False)
      (announced d.restatement m body s) := by
  unfold announced
  rcases run : body s with ⟨outcome, s₁⟩ | ⟨errors | fault, s₁⟩ <;> rw [run] at h
  · obtain ⟨going, solvent, sent⟩ := h
    exact ⟨sent, .inl ⟨going, budget ▸ solvent.within, solvent.counted⟩⟩
  · obtain ⟨spent, sent, unread⟩ := h
    have closing := Ends.on_diagnostics (s := s₁)
      (Diagnostics.announceAbort_heard notes d.restatement spent.attached)
    refine Ends.bind closing ?_
    rintro _ s₂ ⟨-, heard, errors⟩
    obtain ⟨final, mth, text⟩ := spent.last
    have count : (errorsAmong s₁.diagnostics.world.received).length = d.budget := by
      rw [← spent.counted, spent.spent, budget]
    refine ⟨?_, .inr ⟨rfl, ?_, ?_, s₁.diagnostics.world.received, final, ?_, count, ?_⟩⟩
    · rw [heard.received]
      exact sent.trans (List.prefix_append ..)
    · rw [errors, spent.spent, budget]
    · rw [heard.replays, unread]
    · rw [heard.received, text]
      rfl
    · rw [← count, ← List.getLast?_eq_getElem?]
      exact mth
  · trivial

theorem monitor_notes {host : Host σ α}
    (attached : ∀ driver world notice, (host.sink driver world notice).2 ≠ .detach) (d : Driver)
    (source : Source) (stop : Nat) : (d.monitor host.watched source stop).Notes :=
  ⟨fun _ _ => rfl, fun _ _ => rfl, fun w notice => attached d.inside w.world notice⟩

theorem fresh_solvent {m : Monitor (Watched σ)} (positive : 0 < m.budget) (world : σ) :
    Solvent m (fresh α { world }).diagnostics :=
  ⟨⟨rfl, rfl⟩, positive⟩

/-- A parse of an accepted range finishes, whatever evaluation one takes for its match. -/
theorem body_finishes {d : Driver} {host : Host σ α} {rule : Rule α} {source : Source}
    {start stop : Nat} (notes : (d.monitor host.watched source stop).Notes)
    (positive : 0 < d.budget) {world : σ} {t : List (Performance (Watched σ))}
    (h : Evaluates (d.subject host.watched source stop) .attempt rule false start
      (fresh α { world }) t (rule.run (d.subject host.watched source stop) false start
        (fresh α { world }))) :
    Ends
      (fun outcome s => d.Finishes (t.flatMap (·.packet (d.subject host.watched source stop)))
        outcome s.diagnostics)
      (fun _ => False)
      (announced d.restatement (d.monitor host.watched source stop)
        (d.body host.watched rule source start stop) (fresh α { world })) := by
  refine announced_finishes notes rfl ?_
  have matched := h.solvent notes (fresh_solvent positive world)
  refine Ends.bind (matched.mono (fun _ _ h => h) ?_) ?_
  · rintro s₁ ⟨spent, heard⟩
    exact ⟨spent, ⟨[], by rw [heard.received]; simp [fresh]⟩, heard.replays⟩
  rintro m s₁ ⟨solvent, heard⟩
  have stream : s₁.diagnostics.world.received =
      t.flatMap (·.packet (d.subject host.watched source stop)) := heard.received
  have silent (forest : List (Tree α)) (w : Watched σ) (valid : Bool) (w' : Watched σ)
      (read : host.watched.replay d.inside forest w = .ok valid w') :
      w'.received = w.received := by
    simp only [Host.watched] at read
    split at read <;> cases read
    rfl
  refine (conclude_solvent notes silent m solvent).mono ?_ ?_
  · rintro outcome s₂ ⟨going, still, more⟩
    exact ⟨going, still, stream ▸ more⟩
  · rintro s₂ ⟨spent, notices, more⟩
    exact ⟨spent, ⟨notices, by rw [more.received, stream]⟩, more.replays.trans heard.replays⟩

theorem Finishes.account {d : Driver} {stream : List Notice} {outcome : Outcome}
    {last : Diagnostics (Watched σ)} (h : d.Finishes stream outcome last) :
    last.report.errors ≤ d.budget ∧
    (outcome = .aborted ↔ last.report.errors = d.budget) ∧
    (outcome = .aborted → last.world.replays = 0 ∧
      (errorsAmong last.world.received).length = d.budget + 2 ∧
      ∃ sent final, last.world.received = sent ++ closingPair (d.restatement.getD final.text) ∧
        (errorsAmong sent)[d.budget - 1]? = some final) ∧
    (outcome ≠ .aborted → (errorsAmong last.world.received).length = last.report.errors) := by
  obtain ⟨-, ended⟩ := h
  obtain ⟨going, within, counted⟩ | ⟨rfl, spent, unread, sent, final, received, count, mth⟩ := ended
  · refine ⟨Nat.le_of_lt within, ⟨fun stopped => absurd stopped going, fun full => ?_⟩,
      fun stopped => absurd stopped going, fun _ => counted.symm⟩
    exact absurd full (Nat.ne_of_lt within)
  · refine ⟨Nat.le_of_eq spent, ⟨fun _ => spent, fun _ => rfl⟩, fun _ => ⟨unread, ?_, sent, final,
      received, mth⟩, fun going => absurd rfl going⟩
    rw [received, errorsAmong_append, List.length_append, count]
    rfl

/-- A parse that answers has ended with a result. -/
theorem close_ok {d : Driver} {r : EStateM.Result Stop (Matching σ α) Outcome}
    {ok : Outcome → Matching σ α → Prop} {outcome : Outcome}
    (h : Ends ok (fun _ => False) r) (returned : (d.close r).outcome = .ok outcome) :
    ∃ s, r = .ok outcome s ∧ ok outcome s := by
  rcases r with ⟨result, s⟩ | ⟨errors | fault, s⟩
  · cases returned
    exact ⟨s, rfl, h⟩
  · cases h
  · cases returned

/-- A parse of an accepted range that answers leaves the diagnostics in which it has finished. -/
theorem parse_finishes {d : Driver} {host : Host σ α} {rule : Rule α} {source : Source}
    {start stop : Nat} {world : σ} {outcome : Outcome} (idle : d.busy = false)
    (accepted : refuse? source.size start stop = none) (positive : 0 < d.budget)
    (notes : (d.monitor host.watched source stop).Notes)
    (returned : (d.parse host.watched rule source start stop { world }).outcome = .ok outcome) :
    ∃ last : Diagnostics (Watched σ),
      d.parse host.watched rule source start stop { world } =
        ⟨{ d with pending := {}, crumbs := {}, report := last.report }, last.world, .ok outcome⟩ ∧
      ∀ t, Evaluates (d.subject host.watched source stop) .attempt rule false start
          (fresh α { world }) t (rule.run (d.subject host.watched source stop) false start
            (fresh α { world })) →
        d.Finishes (t.flatMap (·.packet (d.subject host.watched source stop))) outcome last := by
  have bounded := d.subject_bounded host.watched source stop
  obtain ⟨t, evaluation⟩ := rule.evaluates bounded false start (fresh α { world })
    (start_inside accepted d host.watched)
  simp only [parse_eq idle accepted] at returned ⊢
  obtain ⟨s, finished, -⟩ := close_ok (body_finishes notes positive evaluation) returned
  refine ⟨s.diagnostics, by rw [finished]; rfl, ?_⟩
  intro t evaluation
  have ends := body_finishes notes positive evaluation
  rw [finished] at ends
  exact ends

/-- A driver that is busy refuses, and has nothing to account for. -/
theorem busy_account {d : Driver} (busy : d.busy = true) {host : Host σ α} {rule : Rule α}
    {source : Source} {start stop : Nat} {world : σ} {outcome : Outcome} :
    let watched := d.parse host.watched rule source start stop { world }
    watched.outcome = .ok outcome →
      outcome ≠ .aborted ∧ watched.driver.lastReport.errors = 0 ∧ watched.world.received = [] := by
  intro watched returned
  simp only [watched, parse_busy busy] at returned ⊢
  cases returned
  refine ⟨nofun, ?_, trivial⟩
  simp [lastReport, busy]

end Driver

/-- The budget of a parse under a sink that never detaches. The report counts the errors that the
sink has received and never exceeds the budget. The parse is aborted exactly when the budget is
used up: then nothing is replayed, and the closing pair follows the error that used it up and is not
counted. An error that is sent inside a scope comes right behind one message that names the scope,
and once the root rule has failed no scope is open. -/
theorem parse_keeps_budget (d : Driver) (host : Host σ α) (rule : Rule α) (source : Source)
    (start stop : Nat) (world : σ) (outcome : Outcome)
    (accepted : Driver.refuse? source.size start stop = none) (least : leastBudget ≤ d.budget)
    (attached : ∀ driver world notice, (host.sink driver world notice).2 ≠ .detach)
    (returned : (d.parse host rule source start stop world).outcome = .ok outcome) :
    let watched := d.parse host.watched rule source start stop { world }
    let received := watched.world.received
    let errors := watched.driver.lastReport.errors
    d.parse host rule source start stop world =
      ⟨watched.driver, watched.world.world, watched.outcome⟩ ∧
    errors ≤ d.budget ∧
    (outcome = .aborted ↔ errors = d.budget) ∧
    (outcome = .aborted → watched.world.replays = 0 ∧
      (errorsAmong received).length = d.budget + 2 ∧
      ∃ sent final, received = sent ++
          [⟨.fatal "Too many errors found. Stopping parsing.", 0⟩,
            ⟨.fatal (d.restatement.getD final.text), 0⟩] ∧
        (errorsAmong sent)[d.budget - 1]? = some final) ∧
    (outcome ≠ .aborted → (errorsAmong received).length = errors) ∧
    (d.busy = false →
      let subject := d.subject host.watched source stop
      let s := Driver.fresh α { world }
      (∃ t, Evaluates subject .attempt rule false start s t (rule.run subject false start s)) ∧
      ∀ t r, Evaluates subject .attempt rule false start s t r →
        (∀ p ∈ t, ∀ notice crumb, p.sent? subject = some notice → notice.level.isError →
          p.state.crumbs.top? = some crumb →
          p.state.world.received ++ [⟨⟨.content, crumb.render, none⟩, notice.line⟩, notice] <+:
            received) ∧
        ∀ s', r = .ok none s' → s'.diagnostics.crumbs.top? = none) := by
  intro watched received errors
  have transparent := d.parse_watched host rule source start stop world
  refine ⟨transparent, ?_⟩
  rw [transparent] at returned
  have positive : 0 < d.budget := Nat.lt_of_lt_of_le (by decide) least
  by_cases busy : d.busy = true
  · obtain ⟨going, uncharged, unheard⟩ := Driver.busy_account busy returned
    have nothing : errors = 0 := uncharged
    have silent : received = [] := unheard
    refine ⟨by omega, ⟨fun stopped => absurd stopped going, fun full => by omega⟩,
      fun stopped => absurd stopped going, fun _ => ?_, fun idle => absurd busy (by simp [idle])⟩
    rw [silent, nothing]
    rfl
  have idle : d.busy = false := by simpa using busy
  have notes := d.monitor_notes attached source stop
  have bounded := d.subject_bounded host.watched source stop
  have inside := Driver.start_inside accepted d host.watched
  obtain ⟨t, evaluation⟩ := rule.evaluates bounded false start (Driver.fresh α { world }) inside
  obtain ⟨last, closed, finishes⟩ :=
    Driver.parse_finishes idle accepted positive notes returned
  have reported : errors = last.report.errors := by
    simp [errors, watched, closed, Driver.lastReport, idle]
  have heard : received = last.world.received := by simp only [received, watched, closed]
  have unread : watched.world.replays = last.world.replays := by simp only [watched, closed]
  rw [heard, reported, unread]
  obtain ⟨within, stops, aborted, counted⟩ := (finishes t evaluation).account
  refine ⟨within, stops, aborted, counted, fun _ => ⟨⟨t, evaluation⟩, ?_⟩⟩
  intro t r evaluated
  have verdict := evaluated.verdict_eq bounded inside
  subst verdict
  constructor
  · intro p member notice crumb sends error scope
    have packet : p.packet (d.subject host.watched source stop) = p.state.crumbs.packet notice := by
      simp only [Performance.packet, sends]
    have solvent := Driver.fresh_solvent (m := (d.subject host.watched source stop).monitor)
      (α := α) positive world
    have early := evaluated.packet_prefix notes solvent member
    rw [packet, Breadcrumbs.packet_of_scope error scope] at early
    exact early.trans (finishes t evaluated).1
  · intro s' failed
    rw [failed] at evaluated
    have closed : s'.diagnostics.crumbs.depth ≤ 0 := evaluated.failed_scopes
    simp only [Breadcrumbs.top?, Array.back?_eq_none_iff]
    exact Array.size_eq_zero_iff.mp (Nat.le_zero.mp closed)

/-- Four errors on one byte, each inside a scope, with a budget of four. -/
theorem parse_keeps_budget_aborted :
    let host : Host Unit Nat := ⟨fun _ _ _ => ((), .keep), fun _ _ => pure true⟩
    let alarm (rule : Rule Nat) := rule.sendNow (.minor "alarm")
    let rule := alarm (alarm (alarm (alarm ((Rule.literal [0x61]).enterScope "letter"))))
    let d : Driver := { budget := 4 }
    let watched := d.parse host.watched rule #[0x61] 0 1 { world := () }
    Driver.refuse? (#[0x61] : Source).size 0 1 = none ∧ leastBudget ≤ d.budget ∧
    (∀ driver world notice, (host.sink driver world notice).2 ≠ .detach) ∧
    (d.parse host rule #[0x61] 0 1 ()).outcome = .ok .aborted ∧
    watched.world.replays = 0 ∧ (errorsAmong watched.world.received).length = 6 := by
  intro host alarm rule d watched
  have accepted : Driver.refuse? (#[0x61] : Source).size 0 1 = none := by decide
  have least : leastBudget ≤ d.budget := by decide
  have attached : ∀ driver world notice, (host.sink driver world notice).2 ≠ .detach :=
    fun _ _ _ => nofun
  have returned : (d.parse host rule #[0x61] 0 1 ()).outcome = .ok .aborted := rfl
  obtain ⟨-, -, -, aborted, -⟩ :=
    parse_keeps_budget d host rule #[0x61] 0 1 () .aborted accepted least attached returned
  obtain ⟨unread, count, -⟩ := aborted rfl
  exact ⟨accepted, least, attached, returned, unread, count⟩

end Backtrack
