import Backtrack.Proofs.Dictation
import Backtrack.Proofs.Residues

/-! How a parse ends whose root rule fails. What the failed attempts have left behind is sent, and
then that nothing could be parsed; so the residue of the rule bounds the errors of a parse that has
sent none before. -/
namespace Backtrack

variable {α : Type}

/-- The last message of a parse that finds nothing. -/
def unfinished : Notice := ⟨.fatal "Unable to finish parsing data.", 0⟩

/-- What failed attempts have left behind and nothing has claimed. -/
def Diagnostics.waiting {σ : Type} (d : Diagnostics σ) : List Notice :=
  (d.pending.abandoned.toList.filter (!·.claimed)).map (·.entry.notice)

namespace Diagnostics

variable {m : Monitor (List Notice)} {d : Diagnostics (List Notice)}

/-- What a scribe has after a message that the budget affords. -/
theorem send_affords (scribes : m.Scribes) (attached : d.detached = false) (notice : Notice)
    (affords : d.report.errors + notice.charge < m.budget) :
    send m notice d =
      .ok () (charged notice { d with world := d.world ++ d.crumbs.packet notice }) := by
  rw [send_eq scribes attached, charge_eq, if_neg]
  rintro ⟨-, spent⟩
  exact Nat.not_lt_of_le spent affords

theorem charge_le (notice : Notice) : notice.charge ≤ 1 := by
  unfold Notice.charge
  split <;> omega

/-- What is abandoned is written down entry by entry, where no scope is open. -/
theorem sendAll_affords (scribes : m.Scribes) (entries : List Abandoned)
    (attached : d.detached = false) (unscoped : d.crumbs.top? = none)
    (affords : d.report.errors + entries.length < m.budget) :
    ∃ d', (entries.forM fun a => send m a.entry.notice) d = .ok () d' ∧
      d'.detached = false ∧ d'.crumbs = d.crumbs ∧
      d'.world = d.world ++ entries.map (·.entry.notice) ∧
      d'.report.errors ≤ d.report.errors + entries.length := by
  induction entries generalizing d with
  | nil => exact ⟨d, rfl, attached, rfl, (List.append_nil _).symm, Nat.le_refl _⟩
  | cons a entries ih =>
    rw [List.length_cons] at affords ⊢
    have once := charge_le a.entry.notice
    have sent := send_affords scribes attached a.entry.notice (by omega)
    rw [Breadcrumbs.packet_unscoped unscoped] at sent
    let d₁ := charged a.entry.notice { d with world := d.world ++ [a.entry.notice] }
    have counted : d₁.report.errors = d.report.errors + a.entry.notice.charge := rfl
    obtain ⟨d', rest, still, same, written, errors⟩ :=
      ih (d := d₁) attached unscoped (by omega)
    refine ⟨d', ?_, still, same, ?_, by omega⟩
    · change (send m a.entry.notice >>= fun _ => entries.forM fun a => send m a.entry.notice) d = _
      rw [bind_apply, sent]
      exact rest
    · rw [written, List.map_cons, List.append_cons]
      rfl

end Diagnostics

theorem Matching.onDiagnostics_ok {σ β : Type} {op : Diagnosing σ β} {s : Matching σ α} {result : β}
    {d : Diagnostics σ} (done : op s.diagnostics = .ok result d) :
    onDiagnostics op s = .ok result ⟨s.events, d⟩ := by
  rw [onDiagnostics, done]

namespace Driver

variable {rule : Rule α} {d : Driver} {source : Source} {start stop : Nat}
  {verdict : List (Tree α) → Bool}

/-- What follows a failure of the root rule, if the budget affords it. -/
theorem conclude_failed {subject : Subject (List Notice)} (scribes : subject.monitor.Scribes)
    (host : List (Tree α) → EStateM Fault (List Notice) Bool) {s : Matching (List Notice) α}
    (attached : s.diagnostics.detached = false) (unscoped : s.diagnostics.crumbs.top? = none)
    (affords : s.diagnostics.report.errors + s.diagnostics.left + 1 < subject.monitor.budget) :
    ∃ s', conclude subject host none s = .ok .notParsed s' ∧ s'.diagnostics.detached = false ∧
      s'.diagnostics.world = s.diagnostics.world ++ s.diagnostics.waiting ++ [unfinished] ∧
      s'.diagnostics.report.errors ≤ s.diagnostics.report.errors + s.diagnostics.left + 1 := by
  let entries := s.diagnostics.pending.abandoned.toList.filter (!·.claimed)
  have few : entries.length ≤ s.diagnostics.left := List.length_filter_le ..
  obtain ⟨d, flushed, attached₁, scope, written, errors⟩ :=
    Diagnostics.sendAll_affords (d := { s.diagnostics with pending.abandoned := #[] }) scribes
      entries attached unscoped (by dsimp only; omega)
  dsimp only at written errors
  have unscoped₁ : d.crumbs.top? = none := scope ▸ unscoped
  have flush : Diagnostics.flushAbandoned subject.monitor s.diagnostics = .ok () d := flushed
  have fatal : unfinished.charge = 1 := rfl
  have sent := Diagnostics.send_affords scribes attached₁ unfinished (by omega)
  rw [Breadcrumbs.packet_unscoped unscoped₁] at sent
  let d₁ := Diagnostics.charged unfinished { d with world := d.world ++ [unfinished] }
  refine ⟨⟨s.events, d₁⟩, ?_, attached₁, ?_, ?_⟩
  · rw [conclude, bind_apply, Matching.onDiagnostics_ok flush]
    dsimp only
    rw [bind_apply, Matching.onDiagnostics_ok sent]
    rfl
  · change d.world ++ [unfinished] = _
    rw [written]
    rfl
  · change d.report.errors + unfinished.charge ≤ _
    omega

theorem hearAll_scribe (driver : Driver) (before notices : List Notice) :
    hearAll ((scribe verdict).sink driver) (false, before) notices =
      (false, before ++ notices) := by
  induction notices generalizing before with
  | nil => simp [hearAll]
  | cons notice notices ih =>
    rw [List.append_cons]
    exact ih (before ++ [notice])

/-- The parse of a scribe is its course. -/
theorem Course.Fits.scribed {course : Course α}
    (fits : course.Fits d rule source start stop verdict) :
    d.parse (scribe verdict) rule source start stop [] =
      ⟨course.driver, course.messages, .ok course.outcome⟩ := by
  obtain ⟨world, takes, parsed⟩ := fits _ (scribe verdict) (fun _ _ _ => nofun)
    (fun forest notices => ⟨notices, rfl⟩) []
  have heard : world = course.messages := by
    unfold Takes at takes
    rw [hearAll_scribe, List.nil_append] at takes
    cases replayed : course.forest? with
    | none => simpa [replayed] using takes
    | some forest =>
      simp only [replayed] at takes
      obtain ⟨valid, same⟩ := takes
      cases same
      rfl
  rw [parsed, heard]

/-- The course of a parse whose root rule fails: what the effects have sent, what failed attempts
have left behind, and that nothing could be parsed. -/
theorem course_of_failure (balanced : rule.Balanced) (idle : d.busy = false)
    (accepted : refuse? source.size start stop = none) {s : Matching (List Notice) α}
    {t : List (Performance (List Notice))}
    (evaluation : Evaluates (d.subject (scribe verdict) source stop) .attempt rule false start
      (fresh α []) t (.ok none s))
    (affords : errorsSent (d.subject (scribe verdict) source stop) t + rule.residue + 1 <
      d.budget) :
    ∃ driver, s.diagnostics.waiting.length ≤ rule.residue ∧
      driver.lastReport.errors ≤
        errorsSent (d.subject (scribe verdict) source stop) t + rule.residue + 1 ∧
      Course.Fits ⟨t.flatMap (·.packet (d.subject (scribe verdict) source stop)) ++
          s.diagnostics.waiting ++ [unfinished], none, driver, .notParsed⟩
        d rule source start stop verdict := by
  have bounded := d.subject_bounded (scribe verdict) source stop
  have inside := start_inside accepted d (scribe verdict)
  have run : rule.run (d.subject (scribe verdict) source stop) false start (fresh α []) =
      .ok none s := evaluation.verdict_eq bounded inside
  have trail : Trail _ (fresh α []).diagnostics t s.diagnostics := evaluation.follows
  obtain ⟨attached, written⟩ := trail.scribed (fun _ _ => rfl) rfl
  have charged : s.diagnostics.report.errors = 0 + _ := trail.charged
  have few : s.diagnostics.left ≤ 0 + rule.residue :=
    evaluation.leaves (balanced .pending) (Nat.zero_le _)
  have unscoped : s.diagnostics.crumbs.top? = none := evaluation.failed_unscoped rfl
  have budget : (d.subject (scribe verdict) source stop).monitor.budget = d.budget := rfl
  have scribes : (d.subject (scribe verdict) source stop).monitor.Scribes := fun _ _ => rfl
  obtain ⟨s', concluded, -, world, errors⟩ :=
    conclude_failed scribes ((scribe verdict).replay d.inside) attached unscoped (by omega)
  obtain ⟨messages, driver, outcome, fits⟩ := course_unmatched balanced idle accepted
    fun next s' matched => by cases run.symm.trans matched
  have parsed := fits.scribed
  rw [parse_eq idle accepted, announced, body_eq_conclude run, concluded] at parsed
  have said : messages = t.flatMap (·.packet (d.subject (scribe verdict) source stop)) ++
      s.diagnostics.waiting ++ [unfinished] := by
    have same : s'.diagnostics.world = messages := congrArg (·.world) parsed
    rw [← same, world, written]
    rfl
  have ended : outcome = .notParsed := (Except.ok.inj (congrArg (·.outcome) parsed)).symm
  have reported : driver.lastReport = s'.diagnostics.report := by
    obtain rfl : _ = driver := congrArg (·.driver) parsed
    simp [close, lastReport, idle]
  have length : s.diagnostics.waiting.length ≤ s.diagnostics.left := by
    rw [Diagnostics.waiting, List.length_map]
    exact List.length_filter_le ..
  refine ⟨driver, by omega, ?_, said ▸ ended ▸ fits⟩
  rw [reported]
  omega

/-- The course of a parse whose root rule sends nothing and fails. -/
theorem course_failed (balanced : rule.Balanced) (idle : d.busy = false)
    (accepted : refuse? source.size start stop = none) {s : Matching (List Notice) α}
    {t : List (Performance (List Notice))}
    (evaluation : Evaluates (d.subject (scribe verdict) source stop) .attempt rule false start
      (fresh α []) t (.ok none s))
    (silent : noticesSent (d.subject (scribe verdict) source stop) t = [])
    (affords : rule.residue + 1 < d.budget) :
    ∃ notices driver, notices.length ≤ rule.residue ∧
      driver.lastReport.errors ≤ rule.residue + 1 ∧
      Course.Fits ⟨notices ++ [unfinished], none, driver, .notParsed⟩ d rule source start stop
        verdict := by
  have unsent : errorsSent (d.subject (scribe verdict) source stop) t = 0 := by
    rw [errorsSent, ← noticesSent, silent]
    rfl
  obtain ⟨driver, length, reported, fits⟩ :=
    course_of_failure balanced idle accepted evaluation (by omega)
  rw [packets_of_quiet silent, List.nil_append] at fits
  exact ⟨s.diagnostics.waiting, driver, length, by omega, fits⟩

end Driver
end Backtrack
