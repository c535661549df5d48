import Mathlib.Data.List.ReduceOption
import Backtrack.Proofs.Accounting
import Backtrack.Proofs.Balance

/-! A ledger of pending messages. Each push is handed a ticket of its own, and the ledger moves the
tickets as the engine moves the entries: onto the stack and off it, to what is abandoned, to what is
sent or forgotten. No move copies a ticket or loses one. Where the ledger shows what the engine
holds, it goes on to show it, and a ticket is sent just when the engine sends the entry. -/
namespace Backtrack

variable {σ : Type}

/-- The identity of a push, with the entry that stands for it now. -/
structure Ticket where
  id : Nat
  entry : Entry

def Ticket.notice (ticket : Ticket) : Notice := ticket.entry.notice

/-- Where the tickets of all pushes are. -/
structure Ledger where
  pushes : Nat := 0
  /-- Pending, bottom first. -/
  stack : List Ticket := []
  /-- Abandoned and not forgotten, in the order of abandonment. The place of a ticket that has been
  sent is empty. -/
  left : List (Option Ticket) := []
  sent : List Ticket := []
  cancelled : List Ticket := []
  forgotten : List Ticket := []

/-- The pending message that an effect sends, if any. -/
def Performance.reported? (subject : Subject σ) (p : Performance σ) : Option Notice :=
  match p.effect with
  | .sendNow _ => none
  | _ => p.sent? subject

/-- The entry that is still to be sent when the root rule fails. -/
def Abandoned.unclaimed? (a : Abandoned) : Option Entry := if a.claimed then none else some a.entry

/-- What fails is abandoned top first. -/
theorem Pending.abandonFrom_unclaimed (p : Pending) (depth start : Nat) :
    (p.abandonFrom depth start).abandoned.toList.map Abandoned.unclaimed? =
      p.abandoned.toList.map Abandoned.unclaimed? ++
        (p.stack.toList.drop depth).reverse.map some := by
  unfold abandonFrom
  split
  next low =>
    have nothing : p.stack.toList.drop depth = [] := List.drop_eq_nil_of_le low
    simp [nothing]
  next =>
    have above : (p.stack.extract depth p.stack.size).toList = p.stack.toList.drop depth := by
      rw [Array.toList_extract, List.extract_eq_take_drop, List.take_of_length_le (by simp)]
    have bare (entries : List Entry) :
        (entries.zipIdx depth).map (fun x => some x.1) = entries.map some := by
      conv_rhs => rw [← List.zipIdx_map_fst depth entries, List.map_map]
      rfl
    rw [Array.toList_appendList, List.map_append, List.map_reverse, List.map_map, ← above,
      List.map_reverse, ← bare]
    rfl

/-- What is claimed was abandoned and not claimed before. -/
theorem Pending.claimIndex?_some {p : Pending} {start index : Nat}
    (claimed : p.claimIndex? start = some index) :
    ∃ a, p.abandoned[index]? = some a ∧ a.claimed = false := by
  let found (best : Option (Nat × Nat)) : Prop :=
    ∀ height index, best = some (height, index) →
      ∃ a, p.abandoned[index]? = some a ∧ a.claimed = false
  obtain ⟨⟨height, _⟩, best, rfl⟩ := Option.map_eq_some_iff.mp claimed
  refine List.foldlRecOn (motive := found) p.abandoned.toList.zipIdx _ ?_ ?_ height _ best
  · rintro _ _ ⟨⟩
  rintro best earlier ⟨a, place⟩ member
  have here : p.abandoned[place]? = some a := by
    simpa using List.mem_zipIdx_iff_getElem?.mp member
  by_cases claimable : p.Claimable start a
  · have own : found (some (a.height, place)) := by
      rintro _ _ ⟨⟩
      exact ⟨a, here, claimable.1⟩
    simp only [if_pos claimable]
    split
    · split
      · exact own
      · exact earlier
    · exact own
  · simpa only [if_neg claimable] using earlier

/-- The effect puts an entry on the stack. -/
def Effect.pushes : Effect → Bool
  | .push _ => true
  | _ => false

namespace Ledger

def top (g : Ledger) : List Ticket := g.stack.getLast?.toList

def below (g : Ledger) : List Ticket := g.stack.dropLast

/-- What stands at a place among the abandoned. -/
def leftAt (g : Ledger) (index : Nat) : List Ticket := (g.left[index]?.join).toList

/-- Abandoned, and neither sent nor forgotten. -/
def waiting (g : Ledger) : List Ticket := g.left.reduceOption

def tickets (g : Ledger) : List Ticket :=
  g.sent ++ g.waiting ++ g.stack ++ g.cancelled ++ g.forgotten

/-- Moves the tickets as `effect`, performed for `span`, moves the entries of `pending`. Preparing a
message keeps the ticket of the message that it replaces. -/
def apply (g : Ledger) (lines : LineIndex) (effect : Effect) (span : Span) (pending : Pending) :
    Ledger :=
  let line := lines.line span.start
  match effect with
  | .push message =>
    { g with pushes := g.pushes + 1, stack := g.stack ++ [⟨g.pushes, message, line⟩] }
  | .prepare message =>
    { g with stack := g.below ++ g.top.map fun ticket => { ticket with entry := ⟨message, line⟩ } }
  | .cancel => { g with stack := g.below, cancelled := g.cancelled ++ g.top }
  | .pop => { g with stack := g.below, sent := g.sent ++ g.top }
  | .popAbandoned =>
    match pending.claimIndex? span.start with
    | some index => { g with left := g.left.set index none, sent := g.sent ++ g.leftAt index }
    | none => g
  | _ => g

def perform (g : Ledger) (subject : Subject σ) (p : Performance σ) : Ledger :=
  match Span.between subject.source p.start p.stop with
  | .ok span => g.apply subject.monitor.lines p.effect span p.state.pending
  | .error _ => g

/-- An attempt that began at `start` has succeeded: what was abandoned since is forgotten. -/
def settle (g start : Ledger) : Ledger :=
  { g with
    left := g.left.take start.left.length
    forgotten := g.forgotten ++ (g.left.drop start.left.length).reduceOption }

/-- An attempt that began at `start` has failed: what stands above is abandoned, top first. -/
def rewind (g start : Ledger) : Ledger :=
  { g with
    stack := g.stack.take start.stack.length
    left := g.left ++ (g.stack.drop start.stack.length).reverse.map some }

/-- There is one ticket for each push, and each is in one place. -/
def Sound (g : Ledger) : Prop := (g.tickets.map Ticket.id).Perm (List.range g.pushes)

/-- No ticket is in two places, or twice among those that were sent. -/
theorem Sound.nodup {g : Ledger} (sound : g.Sound) : (g.tickets.map Ticket.id).Nodup :=
  sound.nodup_iff.mpr List.nodup_range

theorem below_append_top (g : Ledger) : g.below ++ g.top = g.stack := by
  unfold below top
  cases stack : g.stack.getLast? with
  | none => simp [List.getLast?_eq_none_iff.mp stack]
  | some ticket => simp [List.dropLast_append_getLast? ticket stack]

/-- A ticket that is taken from its place leaves the others. -/
theorem leftAt_perm (left : List (Option Ticket)) (index : Nat) :
    left.reduceOption.Perm
      ((left[index]?.join).toList ++ (left.set index none).reduceOption) := by
  induction left generalizing index with
  | nil => simp
  | cons place left ih =>
    cases index with
    | zero => cases place <;> simp
    | succ index =>
      cases place with
      | none => simpa using ih index
      | some ticket => simpa using ((ih index).cons ticket).trans List.perm_middle.symm

section Moves

variable {subject : Subject σ} {p : Performance σ}

theorem apply_pushes (g : Ledger) (lines : LineIndex) (e : Effect) (span : Span)
    (pending : Pending) :
    (g.apply lines e span pending).pushes = g.pushes + if e.pushes then 1 else 0 := by
  unfold apply
  cases e with
  | popAbandoned =>
    dsimp only
    split <;> rfl
  | _ => rfl

/-- An effect moves tickets, and a push adds one. -/
theorem apply_tickets (g : Ledger) (lines : LineIndex) (e : Effect) (span : Span)
    (pending : Pending) :
    ((g.apply lines e span pending).tickets.map Ticket.id).Perm
      (g.tickets.map Ticket.id ++ if e.pushes then [g.pushes] else []) := by
  have split : g.stack.map Ticket.id = g.below.map Ticket.id ++ g.top.map Ticket.id := by
    rw [← List.map_append, below_append_top]
  apply List.perm_iff_count.mpr
  intro id
  unfold apply
  cases e with
  | push | cancel | pop =>
    simp only [Effect.pushes, tickets, waiting, split, List.map_append, List.count_append,
      List.map_cons, List.map_nil, if_true, if_false, Bool.false_eq_true, List.count_nil]
    omega
  | prepare => simp [Effect.pushes, tickets, waiting, split, Function.comp_def]
  | popAbandoned =>
    dsimp only
    split
    next index _ =>
      have moved := ((leftAt_perm g.left index).map Ticket.id).count_eq id
      simp [Effect.pushes, tickets, waiting, leftAt] at moved ⊢
      omega
    next => simp [Effect.pushes]
  | _ => simp [Effect.pushes]

theorem perform_pushes (g : Ledger) (ordered : p.start ≤ p.stop) :
    (g.perform subject p).pushes = g.pushes + if p.effect.pushes then 1 else 0 := by
  rw [perform, Span.between, if_pos ordered]
  exact apply_pushes ..

theorem Sound.perform {g : Ledger} (sound : g.Sound) (subject : Subject σ) (p : Performance σ) :
    (g.perform subject p).Sound := by
  unfold Ledger.perform
  split
  next span _ =>
    have added := (apply_tickets g subject.monitor.lines p.effect span p.state.pending).trans
      (sound.append_right _)
    unfold Sound
    rw [apply_pushes]
    cases pushed : p.effect.pushes <;> rw [pushed] at added
    · simpa using added
    · simpa [List.range_succ] using added
  next => exact sound

theorem Sound.settle {g : Ledger} (sound : g.Sound) (start : Ledger) : (g.settle start).Sound := by
  apply List.Perm.trans _ sound
  apply List.perm_iff_count.mpr
  intro id
  have split := congrArg List.reduceOption (List.take_append_drop start.left.length g.left)
  rw [List.reduceOption_append] at split
  simp only [Ledger.settle, tickets, waiting, ← split, List.map_append, List.count_append]
  omega

theorem waiting_rewind (g start : Ledger) :
    (g.rewind start).waiting = g.waiting ++ (g.stack.drop start.stack.length).reverse := by
  have whole (tickets : List Ticket) : (tickets.map some).reduceOption = tickets := by
    simp [List.reduceOption]
  rw [waiting, rewind, List.reduceOption_append, whole, waiting]

theorem Sound.rewind {g : Ledger} (sound : g.Sound) (start : Ledger) : (g.rewind start).Sound := by
  apply List.Perm.trans _ sound
  apply List.perm_iff_count.mpr
  intro id
  have split : g.stack.map Ticket.id = (g.rewind start).stack.map Ticket.id ++
      (g.stack.drop start.stack.length).map Ticket.id := by
    rw [← List.map_append, Ledger.rewind, List.take_append_drop]
  simp only [tickets, waiting_rewind, split, List.map_append, List.map_reverse,
    List.count_append, List.count_reverse]
  simp only [Ledger.rewind]
  omega

end Moves

/-- What the ledger shows is what the engine holds. -/
structure Fits (g : Ledger) (p : Pending) : Prop where
  stack : p.stack.toList = g.stack.map (·.entry)
  left : p.abandoned.toList.map Abandoned.unclaimed? = g.left.map (Option.map (·.entry))

namespace Fits

variable {g : Ledger} {p : Pending}

theorem empty : ({} : Ledger).Fits {} := ⟨rfl, rfl⟩

theorem top (fits : g.Fits p) {entry : Entry} (top : p.stack.back? = some entry) :
    ∃ ticket, g.top = [ticket] ∧ ticket.entry = entry := by
  rw [← Array.getLast?_toList, fits.stack, List.getLast?_map] at top
  obtain ⟨ticket, last, same⟩ := Option.map_eq_some_iff.mp top
  exact ⟨ticket, by rw [Ledger.top, last]; rfl, same⟩

theorem empty_of_back? (fits : g.Fits p) (none : p.stack.back? = none) : g.stack = [] := by
  rw [← Array.getLast?_toList, fits.stack, List.getLast?_map, Option.map_eq_none_iff] at none
  exact List.getLast?_eq_none_iff.mp none

theorem below (fits : g.Fits p) : p.pop.stack.toList = g.below.map (·.entry) := by
  simp [Pending.pop, fits.stack, Ledger.below]

theorem settle (fits : g.Fits p) {start : Ledger} {count : Nat} (same : count = start.left.length) :
    (g.settle start).Fits { p with abandoned := p.abandoned.shrink count } := by
  refine ⟨fits.stack, ?_⟩
  simp [Array.shrink_eq_take, List.map_take, fits.left, same, Ledger.settle]

theorem rewind (fits : g.Fits p) {start : Ledger} {depth : Nat}
    (same : depth = start.stack.length) (pos : Nat) :
    (g.rewind start).Fits (p.abandonFrom depth pos) := by
  constructor
  · simp [Pending.abandonFrom_stack, fits.stack, same, Ledger.rewind, List.map_take]
  · rw [Pending.abandonFrom_unclaimed, fits.left, fits.stack, same, ← List.map_drop,
      ← List.map_reverse, List.map_map, Ledger.rewind, List.map_append, List.map_map]
    rfl

/-- What the engine claims stands in the ledger among the abandoned, and was not sent. -/
theorem claim (fits : g.Fits p) {start index : Nat} (found : p.claimIndex? start = some index) :
    ∃ ticket p', p.claim? start = some (ticket.entry, p') ∧ g.leftAt index = [ticket] ∧
      ∀ sent, { g with left := g.left.set index none, sent }.Fits p' := by
  obtain ⟨a, here, fresh⟩ := Pending.claimIndex?_some found
  have place := congrArg (·[index]?) fits.left
  simp only [List.getElem?_map, Array.getElem?_toList, here, Option.map_some,
    Abandoned.unclaimed?, fresh, Bool.false_eq_true, if_false] at place
  obtain ⟨_, there, held⟩ := Option.map_eq_some_iff.mp place.symm
  obtain ⟨ticket, rfl, same⟩ := Option.map_eq_some_iff.mp held
  have taken : p.claim? start = some (a.entry,
      { p with abandoned := p.abandoned.setIfInBounds index { a with claimed := true } }) := by
    simp [Pending.claim?, found, here]
  have left : ((p.abandoned.setIfInBounds index { a with claimed := true }).toList).map
      Abandoned.unclaimed? = (g.left.set index none).map (Option.map (·.entry)) := by
    simp [List.map_set, fits.left, Abandoned.unclaimed?]
  have own : g.leftAt index = [ticket] := by
    rw [leftAt, there]
    rfl
  refine ⟨ticket, { p with abandoned := p.abandoned.setIfInBounds index { a with claimed := true } },
    ?_, own, fun _ => ⟨fits.stack, left⟩⟩
  rw [same, taken]

end Fits

section Engine

variable {subject : Subject σ} {p : Performance σ} {g : Ledger} {d : Diagnostics σ}

/-- The ledger goes on to show what the engine holds. -/
theorem Fits.perform (fits : g.Fits p.state.pending) (done : p.outcome subject = .ok () d) :
    (g.perform subject p).Fits d.pending := by
  unfold Performance.outcome at done
  split at done
  next span between =>
    have accepted := Diagnostics.refusal?_of_ok done
    rw [(Diagnostics.apply_ok done).1]
    simp only [Ledger.perform, between, Ledger.apply]
    cases kind : p.effect <;> rw [kind] at accepted <;> simp only [Diagnostics.pendingAfter]
    case push => exact ⟨by simp [Pending.push, fits.stack], fits.left⟩
    case prepare =>
      have filled : ¬ p.state.pending.depth = 0 := by simpa [Diagnostics.refusal?] using accepted
      obtain ⟨entry, back⟩ : ∃ entry, p.state.pending.stack.back? = some entry := by
        rw [Array.back?_eq_getElem?]
        exact ⟨_, Array.getElem?_eq_getElem (Nat.sub_one_lt filled)⟩
      obtain ⟨ticket, top, -⟩ := fits.top back
      exact ⟨by simp [Pending.push, fits.below, top], fits.left⟩
    case cancel | pop => exact ⟨fits.below, fits.left⟩
    case popAbandoned =>
      unfold Pending.claimed
      cases found : p.state.pending.claimIndex? span.start with
      | some index =>
        obtain ⟨ticket, p', claimed, -, still⟩ := fits.claim found
        rw [claimed]
        exact still _
      | none =>
        have unclaimed : p.state.pending.claim? span.start = none := by
          simp [Pending.claim?, found]
        rw [unclaimed]
        exact fits
    all_goals exact fits
  next => cases done

/-- A ticket is sent just when the engine sends its entry. -/
theorem Fits.reports (fits : g.Fits p.state.pending) :
    (g.perform subject p).sent.map Ticket.notice =
      g.sent.map Ticket.notice ++ (p.reported? subject).toList := by
  unfold Ledger.perform Performance.reported? Performance.sent?
  split
  next span between =>
    simp only [between, Ledger.apply]
    cases p.effect with
    | pop =>
      cases back : p.state.pending.stack.back? with
      | some entry =>
        obtain ⟨ticket, top, rfl⟩ := fits.top back
        simp [top, Ticket.notice]
      | none => simp [Ledger.top, fits.empty_of_back? back]
    | popAbandoned =>
      cases found : p.state.pending.claimIndex? span.start with
      | some index =>
        obtain ⟨ticket, p', claimed, own, -⟩ := fits.claim found
        simp [claimed, own, Ticket.notice]
      | none => simp [Pending.claim?, found]
    | _ => simp
  next between => cases p.effect <;> simp [between]

end Engine

end Ledger
end Backtrack
