import Backtrack.Proofs.Shifting
import Backtrack.Proofs.Shipped

/-! Matches and parses of two ranges that hold the same bytes. What one subject does at a place is
what the other does at the place that corresponds to it, so the two parses end alike; the trees of
their journals are those of one derivation over the bytes alone. -/
namespace Backtrack

variable {σ τ α : Type} {R : Position → Position → Prop} {W : σ → τ → Prop}

/-- Two subjects that hold the same bytes behind `before` and behind `before'`. -/
structure Twins (R : Position → Position → Prop) (W : σ → τ → Prop) (subject : Subject σ)
    (subject' : Subject τ) where
  before : Bytes
  before' : Bytes
  bytes : Bytes
  input : subject.input = before ++ bytes
  input' : subject'.input = before' ++ bytes
  bounded : subject.Bounded
  bounded' : subject'.Bounded
  monitors : subject.monitor.Shifted R W subject'.monitor
  places : ∀ k ≤ bytes.length, R (subject.monitor.lines.position (before.length + k))
    (subject'.monitor.lines.position (before'.length + k))

/-- The bytes of a source up to a place. -/
theorem inputUpTo_split (source : Source) {start stop : Nat} (ordered : start ≤ stop) :
    inputUpTo source stop = inputUpTo source start ++ (source.extract start stop).toList := by
  simp only [inputUpTo, ← Array.toList_append, Array.extract_append_extract, Nat.zero_min,
    Nat.max_eq_right ordered]

theorem length_inputUpTo {source : Source} {start : Nat} (inside : start ≤ source.size) :
    (inputUpTo source start).length = start := by
  simp only [inputUpTo, Array.length_toList, Array.size_extract]
  omega

theorem extract_behind {source : Source} {stop : Nat} {before bytes : Bytes}
    (input : inputUpTo source stop = before ++ bytes) {k n : Nat} (inside : n ≤ bytes.length) :
    (source.extract (before.length + k) (before.length + n)).toList = (bytes.take n).drop k := by
  have length := congrArg List.length input
  have cut : inputUpTo source stop = source.toList.take stop := by
    simp [inputUpTo, List.extract_eq_take_drop]
  simp only [inputUpTo, Array.length_toList, Array.size_extract, List.length_append] at length
  have shorter : source.toList.take (before.length + n) = before ++ bytes.take n := by
    rw [← List.take_length_add_append n, ← input, cut, List.take_take]
    congr 1
    omega
  rw [Array.toList_extract, List.extract_eq_take_drop, ← List.drop_take, shorter,
    ← List.drop_drop, List.drop_left]

namespace Twins

variable {subject : Subject σ} {subject' : Subject τ}

/-- Diagnostics of the two subjects at one point of their matches. -/
def Diagnosed (twins : Twins R W subject subject') (d : Diagnostics σ) (d' : Diagnostics τ) :
    Prop :=
  d.Shifted R W twins.before.length twins.before'.length d'

/-- The two ends of one match, in the subjects. -/
def Reached (twins : Twins R W subject subject') (m m' : Option Nat) : Prop :=
  ∃ reached : Option Nat, m = reached.map (twins.before.length + ·) ∧
    m' = reached.map (twins.before'.length + ·) ∧ ∀ n, reached = some n → n ≤ twins.bytes.length

def Judged (twins : Twins R W subject subject') (r : Verdict σ α) (r' : Verdict τ α) : Prop :=
  Abreast R twins.Reached (Matching.Shifted R W twins.before.length twins.before'.length) r r'

variable {twins : Twins R W subject subject'} {r : Verdict σ α} {r' : Verdict τ α}

namespace Judged

theorem of_none (h : twins.Judged r r') (ends : r.position? = none) : r'.position? = none := by
  cases h with
  | ok reached _ =>
    obtain ⟨m, rfl, rfl, -⟩ := reached
    cases m with
    | none => rfl
    | some => cases ends
  | error => rfl

theorem matched {next : Nat} {s : Matching σ α} (h : twins.Judged (.ok (some next) s) r') :
    ∃ n s', next = twins.before.length + n ∧ n ≤ twins.bytes.length ∧
      r' = .ok (some (twins.before'.length + n)) s' ∧
      twins.Diagnosed s.diagnostics s'.diagnostics := by
  cases h with
  | @ok _ _ _ s' reached states =>
    obtain ⟨_ | n, here, rfl, inside⟩ := reached
    · cases here
    · exact ⟨n, s', Option.some.inj here, inside n rfl, rfl, states⟩

theorem failed {s : Matching σ α} (h : twins.Judged (.ok none s) r') :
    ∃ s', r' = .ok none s' ∧ twins.Diagnosed s.diagnostics s'.diagnostics := by
  cases h with
  | @ok _ _ _ s' reached states =>
    obtain ⟨_ | n, here, rfl, inside⟩ := reached
    · exact ⟨s', rfl, states⟩
    · cases here

theorem returned {m : Option Nat} {s : Matching σ α} (h : twins.Judged (.ok m s) r') :
    ∃ m' s', r' = .ok m' s' ∧ twins.Reached m m' ∧
      twins.Diagnosed s.diagnostics s'.diagnostics := by
  cases h with
  | ok reached states => exact ⟨_, _, rfl, reached, states⟩

theorem stopped {stop : Stop} {s : Matching σ α} (h : twins.Judged (.error stop s) r') :
    ∃ stop' s', r' = .error stop' s' ∧ stop.Shifted R stop' ∧
      twins.Diagnosed s.diagnostics s'.diagnostics := by
  cases h with
  | error stops states => exact ⟨_, _, rfl, stops, states⟩

theorem close (h : twins.Judged r r') {s : Matching σ α} {s' : Matching τ α}
    (same : twins.Diagnosed s.diagnostics s'.diagnostics) (k : Nat) :
    twins.Judged (s.close (twins.before.length + k) r)
      (s'.close (twins.before'.length + k) r') := by
  cases h with
  | ok reached states =>
    have marks : s.diagnostics.mark = s'.diagnostics.mark := same.mark
    obtain ⟨_ | n, rfl, rfl, inside⟩ := reached
    · refine .ok ⟨none, rfl, rfl, inside⟩ ?_
      rw [marks]
      exact states.rewind _ k
    · refine .ok ⟨some n, rfl, rfl, inside⟩ ?_
      rw [marks]
      exact states.settle _
  | error stops states => exact .error stops states

end Judged

theorem stop_eq (twins : Twins R W subject subject') :
    subject.stop = twins.before.length + twins.bytes.length := by
  rw [← twins.bounded.length_input, twins.input, List.length_append]

theorem stop_eq' (twins : Twins R W subject subject') :
    subject'.stop = twins.before'.length + twins.bytes.length := by
  rw [← twins.bounded'.length_input, twins.input', List.length_append]

/-- An effect that is performed at one place of both subjects. -/
theorem performed (twins : Twins R W subject subject') {k n : Nat} (ordered : k ≤ n)
    (inside : n ≤ twins.bytes.length) (e : Effect) {d : Diagnostics σ} {d' : Diagnostics τ}
    (same : twins.Diagnosed d d') :
    Abreast R (fun _ _ => True) twins.Diagnosed
      ((Performance.mk e (twins.before.length + k) (twins.before.length + n) d).outcome subject)
      ((Performance.mk e (twins.before'.length + k) (twins.before'.length + n) d').outcome
        subject') := by
  have long := twins.stop_eq
  have long' := twins.stop_eq'
  have held := twins.bounded
  have held' := twins.bounded'
  simp only [Subject.Bounded] at held held'
  let span : Span := ⟨subject.source, twins.before.length + k, twins.before.length + n,
    by omega, by omega⟩
  let span' : Span := ⟨subject'.source, twins.before'.length + k, twins.before'.length + n,
    by omega, by omega⟩
  have whole : Span.between subject.source (twins.before.length + k) (twins.before.length + n) =
      .ok span := span.between_self
  have whole' : Span.between subject'.source (twins.before'.length + k)
      (twins.before'.length + n) = .ok span' := span'.between_self
  have text : span.text = span'.text := by
    simp only [Span.text, Span.bytes, span, span']
    rw [extract_behind twins.input inside, extract_behind twins.input' inside]
  simp only [Performance.outcome, whole, whole']
  exact Diagnostics.apply_shifted twins.monitors rfl rfl text (twins.places k (by omega)) e same

/-- An effect that is performed behind a match. -/
theorem performed_behind (twins : Twins R W subject subject') {rule : Rule α} {silent : Bool}
    {k n : Nat} {s₁ s₂ : Matching τ α} {t : List (Performance τ)}
    (matched : Evaluates subject' .attempt rule silent (twins.before'.length + k) s₁ t
      (.ok (some (twins.before'.length + n)) s₂))
    (start : k ≤ twins.bytes.length) (inside : n ≤ twins.bytes.length) (e : Effect)
    {d : Diagnostics σ} (same : twins.Diagnosed d s₂.diagnostics) :
    Abreast R (fun _ _ => True) twins.Diagnosed
      ((Performance.mk e (twins.before.length + k) (twins.before.length + n) d).outcome subject)
      ((Performance.mk e (twins.before'.length + k) (twins.before'.length + n)
        s₂.diagnostics).outcome subject') := by
  have onward := matched.onward twins.bounded' (by rw [twins.stop_eq']; omega)
  exact twins.performed (by omega) inside e same

end Twins

section Matches

variable {subject : Subject σ} {subject' : Subject τ}

/-- A match in one subject is a match in the other. -/
theorem Evaluates.shifted (twins : Twins R W subject subject') {stage : Stage} {rule : Rule α}
    {silent : Bool} {pos k : Nat} {s : Matching σ α} {s' : Matching τ α} {t : List (Performance σ)}
    {r : Verdict σ α} (h : Evaluates subject stage rule silent pos s t r)
    (here : pos = twins.before.length + k) (inside : k ≤ twins.bytes.length)
    (same : twins.Diagnosed s.diagnostics s'.diagnostics) :
    ∃ t' r', Evaluates subject' stage rule silent (twins.before'.length + k) s' t' r' ∧
      twins.Judged r r' := by
  induction h generalizing k s' with
  | @leaf rule _ _ _ _ found =>
    subst here
    rw [twins.input, Rule.leaf?_behind] at found
    obtain ⟨reached, matched, rfl⟩ := Option.map_eq_some_iff.mp found
    refine ⟨[], .ok (reached.map (twins.before'.length + ·)) s', .leaf ?_,
      .ok ⟨reached, rfl, rfl, ?_⟩ same⟩
    · rw [twins.input', Rule.leaf?_behind, matched]
      rfl
    · rintro n rfl
      exact (Rule.leaf?_advances matched inside).2
  | seqEnd _ ends ih =>
    obtain ⟨t', r', first, judged⟩ := ih here inside same
    exact ⟨t', r', .seqEnd first (judged.of_none ends), judged⟩
  | seqNext _ _ ih₁ ih₂ =>
    obtain ⟨t', _, first, judged⟩ := ih₁ here inside same
    obtain ⟨n, s₁', there, inside, rfl, same⟩ := judged.matched
    obtain ⟨u', r', second, judged⟩ := ih₂ there inside same
    exact ⟨t' ++ u', r', .seqNext first second, judged⟩
  | choiceEnd _ ends ih =>
    obtain ⟨t', r', left, judged⟩ := ih here inside same
    refine ⟨t', r', .choiceEnd left ?_, judged⟩
    rintro s₁' rfl
    cases judged with
    | ok reached _ =>
      obtain ⟨_ | n, rfl, absent, -⟩ := reached
      · exact ends _ rfl
      · cases absent
  | choiceNext _ _ ih₁ ih₂ =>
    obtain ⟨t', _, left, judged⟩ := ih₁ here inside same
    obtain ⟨s₁', rfl, same⟩ := judged.failed
    obtain ⟨u', r', right, judged⟩ := ih₂ here inside same
    exact ⟨t' ++ u', r', .choiceNext left right, judged⟩
  | differenceEnd _ ends ih =>
    obtain ⟨t', r', keep, judged⟩ := ih here inside same
    exact ⟨t', r', .differenceEnd keep (judged.of_none ends), judged⟩
  | differenceStop _ _ ih₁ ih₂ =>
    obtain ⟨t', _, keep, judged⟩ := ih₁ here inside same
    obtain ⟨n, s₁', -, -, rfl, same⟩ := judged.matched
    obtain ⟨u', _, excluded, judged⟩ := ih₂ here inside same
    obtain ⟨stop', s₂', rfl, -⟩ := judged.stopped
    exact ⟨t' ++ u', _, .differenceStop keep excluded, judged⟩
  | differenceNext _ _ ih₁ ih₂ =>
    obtain ⟨t', _, keep, judged⟩ := ih₁ here inside same
    obtain ⟨n, s₁', rfl, within, rfl, same⟩ := judged.matched
    obtain ⟨u', _, excluded, judged⟩ := ih₂ here inside same
    obtain ⟨_, s₂', rfl, ⟨m, rfl, rfl, -⟩, same⟩ := judged.returned
    refine ⟨t' ++ u', _, .differenceNext keep excluded, .ok ?_ same⟩
    refine ⟨if m.any (n ≤ ·) then none else some n, ?_, ?_, ?_⟩
    · cases m <;> simp [apply_ite]
    · cases m <;> simp [apply_ite]
    · intro i chosen
      split at chosen <;> cases chosen
      exact within
  | optionalStop _ ih =>
    obtain ⟨t', _, part, judged⟩ := ih here inside same
    obtain ⟨stop', s₁', rfl, stops, same⟩ := judged.stopped
    exact ⟨t', _, .optionalStop part, .error stops same⟩
  | optionalNext _ ih =>
    obtain ⟨t', _, part, judged⟩ := ih here inside same
    obtain ⟨_, s₁', rfl, ⟨m, rfl, rfl, within⟩, same⟩ := judged.returned
    refine ⟨t', _, .optionalNext part, .ok ⟨some (m.getD k), ?_, ?_, ?_⟩ same⟩
    · cases m <;> simp [here]
    · cases m <;> simp
    · rintro n ⟨⟩
      cases m with
      | none => exact inside
      | some n => exact within n rfl
  | manyStop _ ih =>
    obtain ⟨t', _, part, judged⟩ := ih here inside same
    obtain ⟨stop', s₁', rfl, stops, same⟩ := judged.stopped
    exact ⟨t', _, .manyStop part, .error stops same⟩
  | manyEnd _ last ih =>
    obtain ⟨t', _, part, judged⟩ := ih here inside same
    obtain ⟨_, s₁', rfl, ⟨m, rfl, rfl, -⟩, same⟩ := judged.returned
    refine ⟨t', _, .manyEnd part ?_, .ok ⟨some k, congrArg some here, rfl, ?_⟩ same⟩
    · cases m with
      | none => exact .inl rfl
      | some n => simp_all
    · rintro n ⟨⟩
      exact inside
  | manyNext _ apart _ ih₁ ih₂ =>
    obtain ⟨t', _, part, judged⟩ := ih₁ here inside same
    obtain ⟨n, s₁', there, within, rfl, same⟩ := judged.matched
    obtain ⟨u', r', rest, judged⟩ := ih₂ there within same
    exact ⟨t' ++ u', r', .manyNext part (by omega) rest, judged⟩
  | many1End _ last ih =>
    obtain ⟨t', r', part, judged⟩ := ih here inside same
    refine ⟨t', r', .many1End part ?_, judged⟩
    cases judged with
    | ok reached _ =>
      obtain ⟨_ | n, rfl, rfl, -⟩ := reached
      · exact .inl rfl
      · simp_all [Verdict.position?]
    | error => exact .inl rfl
  | many1Next _ apart _ ih₁ ih₂ =>
    obtain ⟨t', _, part, judged⟩ := ih₁ here inside same
    obtain ⟨n, s₁', there, within, rfl, same⟩ := judged.matched
    obtain ⟨u', r', rest, judged⟩ := ih₂ there within same
    exact ⟨t' ++ u', r', .many1Next part (by omega) rest, judged⟩
  | actionSilent _ ih =>
    obtain ⟨t', r', part, judged⟩ := ih here inside same
    exact ⟨t', r', .actionSilent part, judged⟩
  | actionEnd _ ends ih =>
    let reserved : Matching τ α := ⟨s'.events.push .placeholder, s'.diagnostics⟩
    have same : twins.Diagnosed _ reserved.diagnostics := same
    obtain ⟨t', r', part, judged⟩ := ih here inside same
    exact ⟨t', r', .actionEnd part (judged.of_none ends), judged⟩
  | actionNext _ ih =>
    let reserved : Matching τ α := ⟨s'.events.push .placeholder, s'.diagnostics⟩
    have same : twins.Diagnosed _ reserved.diagnostics := same
    obtain ⟨t', _, part, judged⟩ := ih here inside same
    obtain ⟨n, s₁', rfl, within, rfl, same⟩ := judged.matched
    refine ⟨t', _, .actionNext part, .ok ⟨some n, rfl, rfl, ?_⟩ same⟩
    rintro _ ⟨⟩
    exact within
  | effectSilent _ ih =>
    obtain ⟨t', r', part, judged⟩ := ih here inside same
    exact ⟨t', r', .effectSilent part, judged⟩
  | effectEnd _ ends ih =>
    obtain ⟨t', r', part, judged⟩ := ih here inside same
    exact ⟨t', r', .effectEnd part (judged.of_none ends), judged⟩
  | @effectStop _ e _ _ _ _ _ _ _ part stopped ih =>
    obtain ⟨t', _, part', judged⟩ := ih here inside same
    obtain ⟨n, s₁', rfl, within, rfl, same⟩ := judged.matched
    subst here
    have performed := twins.performed_behind part' inside within e same
    rw [stopped] at performed
    generalize outcome : Performance.outcome subject' _ = result at performed
    cases performed with
    | error stops states =>
      exact ⟨_, _, .effectStop part' outcome, .error stops states⟩
  | @effectNext _ e _ _ _ _ _ _ part done ih =>
    obtain ⟨t', _, part', judged⟩ := ih here inside same
    obtain ⟨n, s₁', rfl, within, rfl, same⟩ := judged.matched
    subst here
    have performed := twins.performed_behind part' inside within e same
    rw [done] at performed
    generalize outcome : Performance.outcome subject' _ = result at performed
    cases performed with
    | ok _ states =>
      refine ⟨_, _, .effectNext part' outcome, .ok ⟨some n, rfl, rfl, ?_⟩ states⟩
      rintro _ ⟨⟩
      exact within
  | close _ ih =>
    subst here
    obtain ⟨t', r', body, judged⟩ := ih rfl inside same
    exact ⟨t', _, .close body, judged.close same k⟩

/-- The journals of two matches hold one derivation, over the bytes that the subjects share. -/
theorem Twins.journals (twins : Twins R W subject subject') {rule : Rule α} {n : Nat}
    {s s₁ : Matching σ α} {s' s₁' : Matching τ α} {t : List (Performance σ)}
    {t' : List (Performance τ)}
    (h : Evaluates subject .attempt rule false twins.before.length s t
      (.ok (some (twins.before.length + n)) s₁))
    (h' : Evaluates subject' .attempt rule false twins.before'.length s' t'
      (.ok (some (twins.before'.length + n)) s₁'))
    (fresh : s.events = #[]) (fresh' : s'.events = #[]) :
    ∃ forest, Derives twins.bytes.toArray twins.bytes.length rule 0 n forest ∧
      Journal.forest subject.source s₁.events.toList =
        .ok (forest.map (Tree.displace subject.source twins.before.length)) ∧
      Journal.forest subject'.source s₁'.events.toList =
        .ok (forest.map (Tree.displace subject'.source twins.before'.length)) := by
  have alone : inputUpTo twins.bytes.toArray twins.bytes.length = twins.bytes := by
    simp [inputUpTo]
  obtain ⟨m, recognized⟩ := Recognizes.total twins.bytes rule 0 (Nat.zero_le _)
  have same : m.map (twins.before.length + ·) = some (twins.before.length + n) := by
    have behind := recognized.behind twins.before
    rw [← twins.input] at behind
    exact behind.unique h.recognizes
  obtain ⟨n', rfl, reached⟩ := Option.map_eq_some_iff.mp same
  obtain rfl : n' = n := Nat.add_left_cancel reached
  rw [← alone] at recognized
  obtain ⟨forest, derives⟩ := recognized.derives (Nat.zero_le _)
  have read {υ : Type} {whole : Subject υ} {before : Bytes}
      (input : whole.input = before ++ twins.bytes) (bounded : whole.Bounded)
      {s s₁ : Matching υ α} {t : List (Performance υ)} (h : Evaluates whole .attempt rule false
        before.length s t (.ok (some (before.length + n')) s₁)) (fresh : s.events = #[]) :
      Journal.forest whole.source s₁.events.toList =
        .ok (forest.map (Tree.displace whole.source before.length)) := by
    have inside : before.length ≤ whole.stop := by
      rw [← bounded.length_input, input, List.length_append]
      exact Nat.le_add_right ..
    obtain ⟨f, found, events⟩ := h.journaled bounded inside
    have longer : inputUpTo whole.source whole.stop =
        before ++ inputUpTo twins.bytes.toArray twins.bytes.length := by
      rw [alone]
      exact input
    obtain rfl := found.unique (derives.behind longer (Nat.zero_le _))
    rw [events, fresh]
    exact (found.nests (by rw [← bounded.length_input] at inside; exact inside)).forest_events
  exact ⟨forest, derives, read twins.input twins.bounded h fresh,
    read twins.input' twins.bounded' h' fresh'⟩

end Matches

namespace Driver

variable {d : Driver} {base base' : Nat}

variable {subject : Subject σ} {subject' : Subject τ} {host : List (Tree α) → EStateM Fault σ Bool}
  {host' : List (Tree α) → EStateM Fault τ Bool} {s : Matching σ α} {s' : Matching τ α}

theorem conclude_none_shifted (monitors : subject.monitor.Shifted R W subject'.monitor)
    (same : s.Shifted R W base base' s') :
    Abreast R (· = ·) (Matching.Shifted R W base base') (conclude subject host none s)
      (conclude subject' host' none s') := by
  have flush := Abreast.on_diagnostics (α := α) (Diagnostics.flushAbandoned_shifted monitors same)
  refine flush.bind fun _ _ s₁ s₁' _ same => ?_
  have final : Notice.Shifted R ⟨.fatal "Unable to finish parsing data.", 0⟩
      ⟨.fatal "Unable to finish parsing data.", 0⟩ := ⟨rfl, rfl, .inl ⟨rfl, rfl⟩, .inl rfl⟩
  have sent := Abreast.on_diagnostics (α := α)
    (Diagnostics.send_shifted monitors final rfl same)
  exact sent.bind fun _ _ _ _ _ same => .ok rfl same

theorem conclude_some_shifted {forest forest' : List (Tree α)} {n : Nat}
    (stop : subject.stop = base + n) (stop' : subject'.stop = base' + n)
    (read : Journal.forest subject.source s.events.toList = .ok forest)
    (read' : Journal.forest subject'.source s'.events.toList = .ok forest')
    (replays : ∀ world world', W world world' → ∃ valid v v',
      host forest world = .ok valid v ∧ host' forest' world' = .ok valid v' ∧ W v v')
    (same : s.Shifted R W base base' s') (k : Nat) :
    Abreast R (· = ·) (Matching.Shifted R W base base') (conclude subject host (some (base + k)) s)
      (conclude subject' host' (some (base' + k)) s') := by
  have depth := same.pending.depth
  have emptied : Pending.Shifted R base base' {} {} := ⟨.nil, .nil⟩
  by_cases empty : s.diagnostics.pending.depth = 0
  · obtain ⟨valid, v, v', replayed, replayed', world⟩ := replays _ _ same.world
    rw [conclude_matched empty read replayed, conclude_matched (depth ▸ empty) read' replayed',
      stop, stop']
    have ate : (base + k == base + n) = (base' + k == base' + n) := by
      simp
    rw [ate]
    exact .ok rfl { same with pending := emptied, crumbs := .nil, world }
  · have waiting : 0 < s.diagnostics.pending.depth := Nat.pos_of_ne_zero empty
    rw [conclude_some, if_pos waiting, conclude_some, if_pos (depth ▸ waiting)]
    exact .error (.fault .pendingAfterMatch) { same with pending := emptied, crumbs := .nil }

theorem announced_shifted {m : Monitor σ} {m' : Monitor τ} (monitors : m.Shifted R W m')
    {body : MatchM σ α Outcome} {body' : MatchM τ α Outcome}
    (bodies : Abreast R (· = ·) (Matching.Shifted R W base base') (body s) (body' s'))
    (restatement : Option String) :
    Abreast R (· = ·) (Matching.Shifted R W base base') (announced restatement m body s)
      (announced restatement m' body' s') := by
  unfold announced
  generalize body s = r at bodies
  generalize body' s' = r' at bodies
  cases bodies with
  | ok outcomes states => exact .ok outcomes states
  | error stops states =>
    cases stops with
    | aborted errors =>
      have closing := Abreast.on_diagnostics (α := α)
        (Diagnostics.announceAbort_shifted monitors restatement states)
      exact closing.bind fun _ _ _ _ _ same => .ok rfl same
    | fault faults => exact .error (.fault faults) states

end Driver

/-- How two parses of ranges with the same bytes end: with one outcome, or with one fault. -/
inductive SameEnd (R : Position → Position → Prop) : Except Fault Outcome → Except Fault Outcome →
    Prop where
  | ok (outcome) : SameEnd R (.ok outcome) (.ok outcome)
  | error {fault fault'} : fault.Shifted R fault' → SameEnd R (.error fault) (.error fault')

namespace Driver

variable {d : Driver} {rule : Rule α} {host : Host σ α} {host' : Host τ α}
  {source source' : Source} {start start' stop stop' : Nat}

theorem close_shifted {base base' : Nat} {r : EStateM.Result Stop (Matching σ α) Outcome}
    {r' : EStateM.Result Stop (Matching τ α) Outcome}
    (h : Abreast R (· = ·) (Matching.Shifted R W base base') r r') :
    (d.close r).driver = (d.close r').driver ∧
    SameEnd R (d.close r).outcome (d.close r').outcome ∧
    W (d.close r).world (d.close r').world := by
  cases h with
  | ok outcomes states =>
    subst outcomes
    exact ⟨by simp only [close, states.report], .ok _, states.world⟩
  | error stops states =>
    cases stops with
    | aborted errors => exact ⟨rfl, .ok _, states.world⟩
    | fault faults => exact ⟨rfl, .error faults, states.world⟩

/-- Two ranges that hold the same bytes, and what relates their hosts. -/
structure SameRange (R : Position → Position → Prop) (W : σ → τ → Prop) (d : Driver)
    (rule : Rule α) (host : Host σ α) (host' : Host τ α) (source source' : Source)
    (start start' stop stop' : Nat) : Prop where
  accepted : refuse? source.size start stop = none
  accepted' : refuse? source'.size start' stop' = none
  bytes : source.extract start stop = source'.extract start' stop'
  places : ∀ k ≤ stop - start,
    R ((LineIndex.ofSource (source.extract 0 stop)).position (start + k))
      ((LineIndex.ofSource (source'.extract 0 stop')).position (start' + k))
  sinks : ∀ world world' n n', W world world' → n.Shifted R n' →
    (host.sink d.inside world n).2 = .keep ∧ (host'.sink d.inside world' n').2 = .keep ∧
      W (host.sink d.inside world n).1 (host'.sink d.inside world' n').1
  replays : ∀ next forest world world', W world world' →
    Derives (source.extract start stop) (source.extract start stop).size rule 0 next forest →
    ∃ valid v v',
    host.replay d.inside (forest.map (Tree.displace source start)) world = .ok valid v ∧
    host'.replay d.inside (forest.map (Tree.displace source' start')) world' = .ok valid v' ∧
    W v v'

namespace SameRange

variable (range : SameRange R W d rule host host' source source' start start' stop stop')
include range

theorem twins : ∃ twins : Twins R W (d.subject host source stop) (d.subject host' source' stop'),
    twins.before.length = start ∧ twins.before'.length = start' ∧
      twins.bytes = (source.extract start stop).toList := by
  obtain ⟨ordered, within⟩ := refuse?_none range.accepted
  obtain ⟨ordered', within'⟩ := refuse?_none range.accepted'
  have length := length_inputUpTo (Nat.le_trans (Nat.le_of_lt ordered) within)
  have length' := length_inputUpTo (Nat.le_trans (Nat.le_of_lt ordered') within')
  refine ⟨⟨inputUpTo source start, inputUpTo source' start', (source.extract start stop).toList,
    ?_, ?_, d.subject_bounded host source stop, d.subject_bounded host' source' stop',
    ⟨rfl, range.sinks⟩, ?_⟩, length, length', rfl⟩
  · rw [← inputUpTo_split _ (Nat.le_of_lt ordered)]
    simp only [Subject.input, subject, Subject.upTo, Nat.min_eq_left within]
  · rw [range.bytes, ← inputUpTo_split _ (Nat.le_of_lt ordered')]
    simp only [Subject.input, subject, Subject.upTo, Nat.min_eq_left within']
  · intro k inside
    rw [length, length']
    simp only [Array.length_toList, Array.size_extract] at inside
    exact range.places k (by omega)

theorem body_shifted (world : σ) (world' : τ) (worlds : W world world') :
    Abreast R (· = ·) (Matching.Shifted R W start start')
      (d.body host rule source start stop (fresh α world))
      (d.body host' rule source' start' stop' (fresh α world')) := by
  have inside := start_inside range.accepted d host
  have inside' := start_inside range.accepted' d host'
  obtain ⟨twins, rfl, rfl, bytes⟩ := range.twins
  have same : twins.Diagnosed (Driver.fresh α world).diagnostics
      (Driver.fresh α world').diagnostics :=
    ⟨⟨.nil, .nil⟩, .nil, rfl, rfl, rfl, rfl, worlds⟩
  obtain ⟨t, evaluation⟩ := rule.evaluates twins.bounded false _ (Driver.fresh α world) inside
  obtain ⟨t', r', evaluation', judged⟩ :=
    evaluation.shifted (k := 0) twins rfl (Nat.zero_le _) same
  rw [Nat.add_zero] at evaluation'
  have run' : rule.run _ false _ (Driver.fresh α world') = r' :=
    evaluation'.verdict_eq twins.bounded' inside'
  generalize run : rule.run _ false _ (Driver.fresh α world) = r at evaluation judged
  cases judged with
  | ok reached states =>
    obtain ⟨_ | n, rfl, rfl, within⟩ := reached
    · rw [body_eq_conclude run, body_eq_conclude run']
      exact conclude_none_shifted twins.monitors states
    · rw [body_eq_conclude run, body_eq_conclude run']
      obtain ⟨forest, derives, read, read'⟩ := twins.journals evaluation evaluation' rfl rfl
      simp only [bytes, Array.toArray_toList, Array.length_toList] at derives
      exact conclude_some_shifted twins.stop_eq twins.stop_eq' read read'
        (fun _ _ worlds => range.replays _ forest _ _ worlds derives) states n
  | error stops states =>
    rw [body, body, bind_apply, bind_apply, run, run']
    exact .error stops states

/-- Parses of two ranges that hold the same bytes. -/
theorem parse_shifted (world : σ) (world' : τ) (worlds : W world world') :
    let parsed := d.parse host rule source start stop world
    let parsed' := d.parse host' rule source' start' stop' world'
    parsed.driver = parsed'.driver ∧ SameEnd R parsed.outcome parsed'.outcome ∧
      W parsed.world parsed'.world := by
  intro parsed parsed'
  by_cases busy : d.busy = true
  · simp only [parsed, parsed', parse_busy busy]
    exact ⟨trivial, .ok _, worlds⟩
  have idle : d.busy = false := by simpa using busy
  have bodies := range.body_shifted world world' worlds
  have monitors : (d.monitor host source stop).Shifted R W (d.monitor host' source' stop') :=
    ⟨rfl, range.sinks⟩
  simp only [parsed, parsed', parse_eq idle range.accepted, parse_eq idle range.accepted']
  exact close_shifted (announced_shifted monitors bodies d.restatement)

end SameRange
end Driver

end Backtrack
