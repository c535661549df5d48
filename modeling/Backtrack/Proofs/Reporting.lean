import Backtrack.Proofs.Budget
import Backtrack.Proofs.Chronicle
import Backtrack.Proofs.Failures
import Backtrack.Proofs.Rewinding
import Backtrack.Proofs.Shipped

/-! What a parse reports of the messages that were pushed. A failure of the root rule sends what is
waiting in the ledger, ticket by ticket, and then that nothing could be parsed; a match of the root
rule sends nothing more. -/
namespace Backtrack

variable {σ α : Type}

section Flushing

variable {m : Monitor σ} {d : Diagnostics σ} {g : Ledger}

theorem Ledger.Fits.waiting {p : Pending} (fits : g.Fits p) :
    (p.abandoned.toList.filter (!·.claimed)).map (·.entry) = g.waiting.map (·.entry) := by
  have left := congrArg List.reduceOption fits.left
  rw [List.reduceOption_map] at left
  rw [Ledger.waiting, ← left]
  induction p.abandoned.toList with
  | nil => rfl
  | cons a rest ih => cases claimed : a.claimed <;> simp [Abandoned.unclaimed?, claimed, ih]

theorem Diagnostics.forM_send (m : Monitor σ) (left : List Abandoned) :
    (left.forM fun a => send m a.entry.notice) =
      ((left.map (·.entry)).map Entry.notice).forM (send m) := by
  induction left with
  | nil => rfl
  | cons a left ih => exact congrArg (send m a.entry.notice >>= ·) (funext fun _ => ih)

/-- What is flushed is what waits in the ledger. -/
theorem Diagnostics.flushAbandoned_eq (fits : g.Fits d.pending) :
    flushAbandoned m d =
      (g.waiting.map Ticket.notice).forM (send m) { d with pending.abandoned := #[] } := by
  change ((d.pending.abandoned.toList.filter (!·.claimed)).forM fun a => send m a.entry.notice) _ = _
  rw [forM_send, fits.waiting, List.map_map]
  rfl

end Flushing

/-- Sends messages in their order for a parse that has found nothing. -/
def sendAll (m : Monitor σ) (notices : List Notice) : MatchM σ α Outcome := do
  Matching.onDiagnostics (notices.forM (Diagnostics.send m))
  return .notParsed

namespace Driver

theorem conclude_none {subject : Subject σ} {host : List (Tree α) → EStateM Fault σ Bool}
    {s : Matching σ α} {g : Ledger} (fits : g.Fits s.diagnostics.pending) :
    conclude subject host none s =
      sendAll subject.monitor (g.waiting.map Ticket.notice ++ [unfinished])
        { s with diagnostics.pending.abandoned := #[] } := by
  have fatal : (⟨.fatal "Unable to finish parsing data.", 0⟩ : Notice) = unfinished := rfl
  simp only [conclude, sendAll, bind_apply, Matching.onDiagnostics, fatal,
    Diagnostics.flushAbandoned_eq fits, List.forM_eq_forM, List.forM_append, List.forM_cons,
    List.forM_nil]
  rcases forM (g.waiting.map Ticket.notice) (Diagnostics.send subject.monitor)
      { s.diagnostics with pending.abandoned := #[] } with ⟨_, d⟩ | ⟨stop, d⟩
  · dsimp only
    cases Diagnostics.send subject.monitor unfinished d <;> rfl
  · rfl

/-- A parse whose root rule fails sends what waits in the ledger, and then that nothing could be
parsed. -/
theorem parse_failed {rule : Rule α} {d : Driver} {host : Host σ α} {source : Source}
    {start stop : Nat} (idle : d.busy = false) (accepted : refuse? source.size start stop = none)
    {world : σ} {s : Matching σ α}
    (run : rule.run (d.subject host source stop) false start (fresh α world) = .ok none s)
    {g : Ledger} (fits : g.Fits s.diagnostics.pending) :
    d.parse host rule source start stop world =
      d.close (announced d.restatement (d.monitor host source stop)
        (sendAll (d.monitor host source stop) (g.waiting.map Ticket.notice ++ [unfinished]))
        { s with diagnostics.pending.abandoned := #[] }) := by
  rw [parse_eq idle accepted, announced, announced, body_eq_conclude run, conclude_none fits]
  rfl

/-- A parse whose root rule matches sends nothing after the match, however it ends. -/
theorem parse_matched_received {rule : Rule α} {d : Driver} {host : Host σ α} {source : Source}
    {start stop next : Nat} (idle : d.busy = false)
    (accepted : refuse? source.size start stop = none) {world : σ} {s : Matching (Watched σ) α}
    (run : rule.run (d.subject host.watched source stop) false start (fresh α { world }) =
      .ok (some next) s) :
    (d.parse host.watched rule source start stop { world }).world.received =
      s.diagnostics.world.received := by
  rw [parse_eq idle accepted, announced, body_eq_conclude run, conclude_some]
  by_cases waiting : 0 < s.diagnostics.pending.depth
  · rw [if_pos waiting]
    rfl
  · rw [if_neg waiting]
    cases Journal.forest _ s.events.toList with
    | error fault => rfl
    | ok forest =>
      simp only [bind_apply, replay, Host.watched]
      cases host.replay d.inside forest s.drained.diagnostics.world.world <;> rfl

end Driver

section Receiving

variable {m : Monitor (Watched σ)} {d : Diagnostics (Watched σ)}

/-- Messages that are sent where no scope is open are received as they are, or those up to the one
that uses up the budget. -/
theorem Solvent.sendAll (notes : m.Notes) (notices : List Notice) (solvent : Solvent m d)
    (unscoped : d.crumbs.top? = none) :
    Ends (fun _ d' => Solvent m d' ∧ Heard notices d.world d'.world)
      (fun d' => Exhausted m d' ∧ ∃ flushed, flushed <+: notices ∧ Heard flushed d.world d'.world)
      (notices.forM (Diagnostics.send m) d) := by
  induction notices generalizing d with
  | nil => exact ⟨solvent, .refl _⟩
  | cons notice notices ih =>
    change Ends _ _ ((Diagnostics.send m notice >>= fun _ =>
      notices.forM (Diagnostics.send m)) d)
    have sent := solvent.send notes notice
    rw [Breadcrumbs.packet_unscoped unscoped] at sent
    rw [bind_apply]
    rcases run : Diagnostics.send m notice d with ⟨_, d₁⟩ | ⟨errors | fault, d₁⟩ <;>
      rw [run] at sent
    · obtain ⟨still, heard⟩ := sent
      refine (ih still (by rw [(Diagnostics.send_ok run).2, unscoped])).mono ?_ ?_
      · rintro _ d₂ ⟨last, more⟩
        exact ⟨last, heard.append more⟩
      · rintro d₂ ⟨spent, flushed, early, more⟩
        exact ⟨spent, notice :: flushed, List.cons_prefix_cons.mpr ⟨rfl, early⟩, heard.append more⟩
    · exact ⟨sent.1, [notice], by simp, sent.2⟩
    · trivial

/-- Closing a parse whose budget is used up adds the closing pair. -/
theorem Driver.announced_heard (notes : m.Notes) (restatement : Option String)
    {body : MatchM (Watched σ) α Outcome} {s : Matching (Watched σ) α}
    {ok : Outcome → Matching (Watched σ) α → Prop} {aborted : Matching (Watched σ) α → Prop}
    (attached : ∀ s, aborted s → s.diagnostics.detached = false) (h : Ends ok aborted (body s)) :
    Ends (fun outcome s' => ok outcome s' ∨ outcome = .aborted ∧ ∃ s₁ text, aborted s₁ ∧
        Heard (closingPair text) s₁.diagnostics.world s'.diagnostics.world)
      (fun _ => False) (announced restatement m body s) := by
  unfold announced
  rcases run : body s with ⟨outcome, s₁⟩ | ⟨errors | fault, s₁⟩ <;> rw [run] at h
  · exact .inl h
  · have closing := Ends.on_diagnostics (s := s₁)
      (Diagnostics.announceAbort_heard notes restatement (attached _ h))
    refine Ends.bind closing ?_
    rintro _ s₂ ⟨-, heard, -⟩
    exact .inr ⟨rfl, s₁, _, h, heard⟩
  · trivial

end Receiving

namespace Driver

variable {d : Driver} {host : Host σ α} {rule : Rule α} {source : Source} {start stop : Nat}
  {world : σ} {t : List (Performance (Watched σ))} {outcome : Outcome}

section Failing

variable (idle : d.busy = false) (accepted : refuse? source.size start stop = none)
  (positive : 0 < d.budget) (notes : (d.monitor host.watched source stop).Notes)
  (evaluation : Evaluates (d.subject host.watched source stop) .attempt rule false start
    (fresh α { world }) t
    (rule.run (d.subject host.watched source stop) false start (fresh α { world })))
  (returned : (d.parse host.watched rule source start stop { world }).outcome = .ok outcome)
include idle accepted positive notes evaluation returned

/-- What a parse whose root rule fails has sent. -/
theorem received_failed {s : Matching (Watched σ) α}
    (run : rule.run (d.subject host.watched source stop) false start (fresh α { world }) =
      .ok none s) {g : Ledger} (fits : g.Fits s.diagnostics.pending) :
    let received := (d.parse host.watched rule source start stop { world }).world.received
    let stream := t.flatMap (·.packet (d.subject host.watched source stop))
    let last := g.waiting.map Ticket.notice ++ [unfinished]
    outcome = .notParsed ∧ received = stream ++ last ∨
      outcome = .aborted ∧ ∃ flushed text, flushed <+: last ∧
        received = stream ++ flushed ++ closingPair text := by
  intro received stream last
  have matched := evaluation.solvent notes (fresh_solvent positive world)
  rw [run] at matched evaluation
  obtain ⟨solvent, heard⟩ := matched
  have streamed : s.diagnostics.world.received = stream := heard.received
  have unscoped : s.diagnostics.crumbs.top? = none := evaluation.failed_unscoped rfl
  have flushed := Solvent.sendAll notes last
    (solvent.of_stacks { s.diagnostics.pending with abandoned := #[] } s.diagnostics.crumbs) unscoped
  have body : Ends
      (fun outcome s' => outcome = .notParsed ∧
        s'.diagnostics.world.received = stream ++ last)
      (fun s' => s'.diagnostics.detached = false ∧ ∃ flushed, flushed <+: last ∧
        s'.diagnostics.world.received = stream ++ flushed)
      (sendAll (d.monitor host.watched source stop) last
        { s with diagnostics.pending.abandoned := #[] }) := by
    have sending := Ends.on_diagnostics (s := { s with diagnostics.pending.abandoned := #[] }) flushed
    refine Ends.bind (sending.mono (fun _ _ h => h) ?_) ?_
    · rintro s' ⟨spent, flushed, early, more⟩
      exact ⟨spent.attached, flushed, early, by rw [more.received, ← streamed]⟩
    · rintro _ s' ⟨-, -, more⟩
      exact ⟨rfl, by rw [more.received, ← streamed]⟩
  have ends := announced_heard notes d.restatement (fun _ h => h.1) body
  have parsed := parse_failed idle accepted run fits
  simp only [received, parsed] at returned ⊢
  obtain ⟨s', finished, ⟨ended, sent⟩ | ⟨aborted, s₁, text, ⟨-, flushed, early, sent⟩, heard⟩⟩ :=
    close_ok ends returned
  · exact .inl ⟨ended, by rw [finished]; exact sent⟩
  · refine .inr ⟨aborted, flushed, text, early, ?_⟩
    rw [finished, ← sent]
    exact heard.received

/-- What a parse whose match stops early has sent. -/
theorem received_stopped {stopped : Stop} {s : Matching (Watched σ) α}
    (run : rule.run (d.subject host.watched source stop) false start (fresh α { world }) =
      .error stopped s) :
    outcome = .aborted ∧ ∃ text,
      (d.parse host.watched rule source start stop { world }).world.received =
        t.flatMap (·.packet (d.subject host.watched source stop)) ++ closingPair text := by
  have matched := evaluation.solvent notes (fresh_solvent positive world)
  rw [run] at matched
  have body : Ends (fun _ _ => False)
      (fun s' => s'.diagnostics.detached = false ∧ s'.diagnostics.world.received =
        t.flatMap (·.packet (d.subject host.watched source stop)))
      (d.body host.watched rule source start stop (fresh α { world })) := by
    rw [Driver.body, bind_apply, run]
    rcases stopped with errors | fault
    · exact ⟨matched.1.attached, matched.2.received⟩
    · trivial
  have ends := announced_heard notes d.restatement (fun _ h => h.1) body
  rw [parse_eq idle accepted] at returned ⊢
  obtain ⟨s', finished, answered⟩ := close_ok ends returned
  obtain ⟨aborted, s₁, text, ⟨-, stream⟩, heard⟩ := answered.resolve_left id
  refine ⟨aborted, text, ?_⟩
  rw [finished, ← stream]
  exact heard.received

end Failing

end Driver

/-- What becomes of the messages that a parse pushes. Each push has a ticket, which stays with the
message when another is prepared in its place and when the attempt fails; a ticket is in one place,
and no ticket is sent twice, whether by an effect or after the failure of the root rule. If the root
rule fails, what was abandoned, not sent and not forgotten by an enclosing success is sent in the
order in which it was abandoned, and only the message that nothing could be parsed follows, unless
the budget is used up on the way. If the root rule matches, nothing more is sent. -/
theorem parse_reports_once (d : Driver) (host : Host σ α) (rule : Rule α) (source : Source)
    (start stop : Nat) (world : σ) (idle : d.busy = false)
    (accepted : Driver.refuse? source.size start stop = none) :
    let watched := d.parse host.watched rule source start stop { world }
    let subject := d.subject host.watched source stop
    let s := Driver.fresh α { world }
    let r : Verdict (Watched σ) α := rule.run subject false start s
    d.parse host rule source start stop world =
      ⟨watched.driver, watched.world.world, watched.outcome⟩ ∧
    (∃ t g, Evaluates subject .attempt rule false start s t r ∧
      r.Enters subject s.diagnostics {} t g) ∧
    ∀ t g, Evaluates subject .attempt rule false start s t r →
      r.Enters subject s.diagnostics {} t g →
      let received := watched.world.received
      let stream := t.flatMap (·.packet subject)
      let last := g.waiting.map Ticket.notice ++ [unfinished]
      g.pushes = t.countP (·.effect.pushes) ∧
      (g.tickets.map Ticket.id).Perm (List.range g.pushes) ∧
      ((g.sent ++ g.waiting).map Ticket.id).Nodup ∧
      g.sent.map Ticket.notice = t.filterMap (·.reported? subject) ∧
      (∀ m s', r = .ok m s' → g.Fits s'.diagnostics.pending) ∧
      (∀ s', r = .ok none s' → g.stack = [] ∧
        watched = d.close (Driver.announced d.restatement subject.monitor
          (sendAll subject.monitor last) { s' with diagnostics.pending.abandoned := #[] })) ∧
      (∀ next s', r = .ok (some next) s' → received = s'.diagnostics.world.received) ∧
      ((∀ driver world notice, (host.sink driver world notice).2 ≠ .detach) →
        leastBudget ≤ d.budget → ∀ outcome, watched.outcome = .ok outcome →
          (∀ s', r = .ok none s' →
            outcome = .notParsed ∧ received = stream ++ last ∨
            outcome = .aborted ∧ ∃ flushed text, flushed <+: last ∧
              received = stream ++ flushed ++ closingPair text) ∧
          (∀ next s', r = .ok (some next) s' → received = stream) ∧
          ∀ stopped s', r = .error stopped s' →
            outcome = .aborted ∧ ∃ text, received = stream ++ closingPair text) := by
  intro watched subject s r
  have bounded := d.subject_bounded host.watched source stop
  have inside := Driver.start_inside accepted d host.watched
  have empty : ({} : Ledger).Fits s.diagnostics.pending := .empty
  refine ⟨d.parse_watched host rule source start stop world, ?_, ?_⟩
  · obtain ⟨t, evaluation⟩ := rule.evaluates bounded false start s inside
    obtain ⟨g, enters⟩ := evaluation.enters {}
    exact ⟨t, g, evaluation, enters⟩
  intro t g evaluation enters received stream last
  have records := enters.records empty (evaluation.ordered bounded inside)
  have sound : g.Sound := records.sound (.refl _)
  have fits (m : Option Nat) (s' : Matching (Watched σ) α) (run : r = .ok m s') :
      g.Fits s'.diagnostics.pending := by
    rw [run] at enters
    obtain ⟨whole⟩ := enters
    exact (whole.records empty (evaluation.ordered bounded inside)).1
  have once : ((g.sent ++ g.waiting).map Ticket.id).Nodup := by
    have part : (g.sent ++ g.waiting).Sublist g.tickets := by simp [Ledger.tickets]
    exact sound.nodup.sublist (part.map Ticket.id)
  refine ⟨by simpa using records.pushes, sound, once, by simpa using records.sent, fits, ?_, ?_, ?_⟩
  · intro s' run
    refine ⟨?_, Driver.parse_failed idle accepted run (fits _ _ run)⟩
    rw [run] at evaluation
    have level : s'.diagnostics.pending.depth ≤ 0 := evaluation.failed_depth .pending
    have bare : s'.diagnostics.pending.stack.toList = [] := by
      simpa [Pending.depth] using level
    exact List.map_eq_nil_iff.mp ((fits _ _ run).stack.symm.trans bare)
  · intro next s' run
    exact Driver.parse_matched_received idle accepted run
  · intro attached least outcome returned
    have positive : 0 < d.budget := Nat.lt_of_lt_of_le (by decide) least
    have notes := d.monitor_notes attached source stop
    refine ⟨?_, ?_, ?_⟩
    · intro s' run
      exact Driver.received_failed idle accepted positive notes evaluation returned run (fits _ _ run)
    · intro next s' run
      have matched := evaluation.solvent notes (Driver.fresh_solvent positive world)
      rw [run] at matched
      exact (Driver.parse_matched_received idle accepted run).trans matched.2.received
    · intro stopped s' run
      exact Driver.received_stopped idle accepted positive notes evaluation returned run

/-- Two messages are pushed and abandoned, an effect sends the one on top, and the root rule fails:
what is left is the one below. -/
theorem parse_reports_once_claimed :
    let host : Host Unit Nat := ⟨fun _ _ _ => ((), .keep), fun _ _ => pure true⟩
    let letter : Rule Nat := .literal [0x61]
    let rule := (letter.push (.minor "vague")).push (.minor "sharp") ++ .nothing |||
      letter.popAbandoned ++ .nothing
    let d : Driver := {}
    let watched := d.parse host.watched rule #[0x61] 0 1 { world := () }
    let subject := d.subject host.watched #[0x61] 1
    let s := Driver.fresh Nat { world := () }
    let r : Verdict (Watched Unit) Nat := rule.run subject false 0 s
    d.busy = false ∧ Driver.refuse? (#[0x61] : Source).size 0 1 = none ∧
    watched.outcome = .ok .notParsed ∧
    watched.world.received = [⟨.minor "sharp", 1⟩, ⟨.minor "vague", 1⟩, unfinished] ∧
    ∃ t g, Evaluates subject .attempt rule false 0 s t r ∧
      r.Enters subject s.diagnostics {} t g ∧ ((g.sent ++ g.waiting).map Ticket.id).Nodup ∧
      watched.world.received =
        t.flatMap (·.packet subject) ++ (g.waiting.map Ticket.notice ++ [unfinished]) := by
  intro host letter rule d watched subject s r
  have idle : d.busy = false := rfl
  have accepted : Driver.refuse? (#[0x61] : Source).size 0 1 = none := by decide
  have least : leastBudget ≤ d.budget := by decide
  have attached : ∀ driver world notice, (host.sink driver world notice).2 ≠ .detach :=
    fun _ _ _ => nofun
  have returned : watched.outcome = .ok .notParsed := by decide +kernel
  have received : watched.world.received =
      [⟨.minor "sharp", 1⟩, ⟨.minor "vague", 1⟩, unfinished] := by decide +kernel
  have unmatched : r.position? = none := by decide +kernel
  obtain ⟨-, ⟨t, g, evaluation, enters⟩, facts⟩ :=
    parse_reports_once d host rule #[0x61] 0 1 () idle accepted
  obtain ⟨-, -, once, -, -, -, -, streams⟩ := facts t g evaluation enters
  obtain ⟨failed, -, stopped⟩ := streams attached least .notParsed returned
  refine ⟨idle, accepted, returned, received, t, g, evaluation, enters, once, ?_⟩
  rcases run : r with ⟨_ | next, s'⟩ | ⟨stop, s'⟩
  · rcases failed s' run with ⟨-, sent⟩ | ⟨⟨⟩, -⟩
    rw [sent]
  · rw [run] at unmatched
    cases unmatched
  · cases (stopped stop s' run).1

end Backtrack
