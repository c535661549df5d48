import Backtrack.Delivery
import Backtrack.Proofs.Hearing

/-! What a caller is given until it refuses. A log keeps each message and each call with the parser
that was shown to the caller's function, and with its reply. A caller that refuses is given what one
that accepts everything is given, up to what it refuses. -/
namespace Backtrack

variable {π κ σ : Type}

/-- Something that the caller was given, with the parser that it could see and its reply. -/
structure Exchange (π κ : Type) where
  shown : π
  given : κ
  reply : Reply

def Exchange.refused (e : Exchange π κ) : Bool := e.reply == .detach

/-- The caller was given the whole stream, or the stream up to the first thing that it refused. -/
structure UpToRefusal (stream : List κ) (log : List (Exchange π κ)) : Prop where
  refused : ∀ k, log.findIdx? Exchange.refused = some k →
    log.map (·.given) = stream.take (k + 1)
  accepted : log.findIdx? Exchange.refused = none → log.map (·.given) = stream

namespace UpToRefusal

variable {stream : List κ} {log : List (Exchange π κ)} {e : Exchange π κ} {call : κ}

theorem nil : UpToRefusal [] ([] : List (Exchange π κ)) := ⟨nofun, fun _ => rfl⟩

theorem stop (given : e.given = call) (refused : e.refused = true) (rest : List κ) :
    UpToRefusal (call :: rest) [e] := by
  constructor <;> simp [List.findIdx?_cons, refused, given]

theorem keep (given : e.given = call) (kept : e.refused = false) (tail : UpToRefusal stream log) :
    UpToRefusal (call :: stream) (e :: log) := by
  constructor
  · intro k found
    simp only [List.findIdx?_cons, kept, Bool.false_eq_true, if_false, Option.map_eq_some_iff]
      at found
    obtain ⟨k, found, rfl⟩ := found
    simp [given, tail.refused k found]
  · intro found
    simp only [List.findIdx?_cons, kept, Bool.false_eq_true, if_false, Option.map_eq_none_iff]
      at found
    simp [given, tail.accepted found]

/-- What follows a refusal is not given. -/
theorem extend (h : UpToRefusal stream log) {k : Nat}
    (found : log.findIdx? Exchange.refused = some k) (more : List κ) :
    UpToRefusal (stream ++ more) log := by
  refine ⟨fun k' found' => ?_, fun none => by simp [none] at found⟩
  obtain rfl : k = k' := by simpa [found] using found'
  have given := h.refused k found
  have short := (List.findIdx?_eq_some_iff_getElem.mp found).1
  have length := congrArg List.length given
  simp only [List.length_map, List.length_take] at length
  rw [given, List.take_append_of_le_length (by omega)]

theorem concat (h : UpToRefusal stream log)
    (found : log.findIdx? Exchange.refused = none) (given : e.given = call) :
    UpToRefusal (stream ++ [call]) (log ++ [e]) := by
  have all := h.accepted found
  have length : stream.length = log.length := by rw [← all, List.length_map]
  constructor
  · intro k at_last
    simp only [List.findIdx?_append, found, Option.none_or, Option.map_eq_some_iff] at at_last
    obtain ⟨i, last, rfl⟩ := at_last
    rw [List.take_of_length_le (by simp; omega)]
    simp [all, given]
  · intro _
    simp [all, given]

theorem eq_nil (h : UpToRefusal [] log) : log = [] := by
  cases found : log.findIdx? Exchange.refused with
  | none => exact List.map_eq_nil_iff.mp (h.accepted found)
  | some k => exact List.map_eq_nil_iff.mp (h.refused k found)

theorem all_given (h : UpToRefusal stream log) (kept : ∀ e ∈ log, e.refused = false) :
    log.map (·.given) = stream :=
  h.accepted (List.findIdx?_eq_none_iff.mpr kept)

theorem given_mem (h : UpToRefusal stream log) (member : e ∈ log) : e.given ∈ stream := by
  have given := List.mem_map_of_mem (f := Exchange.given) member
  cases found : log.findIdx? Exchange.refused with
  | none => rwa [h.accepted found] at given
  | some k =>
    rw [h.refused k found] at given
    exact List.mem_of_mem_take given

end UpToRefusal

/-- All the calls of an item. -/
def Item.calls : Item κ → List κ
  | .call one => [one]
  | .block opening inner => opening :: inner

/-- The calls that were made for these items. A refusal ends everything, but inside a block it ends
the block alone. -/
inductive Delivered : List (Item κ) → List (Exchange π κ) → Prop where
  | none : Delivered [] []
  | kept {e call items log} : e.given = call → e.refused = false → Delivered items log →
      Delivered (.call call :: items) (e :: log)
  | refused {e call items} : e.given = call → e.refused = true →
      Delivered (.call call :: items) [e]
  | block {e opening inner part items log} : e.given = opening → UpToRefusal inner part →
      Delivered items log → Delivered (.block opening inner :: items) (e :: part ++ log)

namespace Delivered

variable {items : List (Item κ)} {log : List (Exchange π κ)}

theorem eq_nil (h : Delivered [] log) : log = [] := by
  cases h
  rfl

/-- Without blocks, calls are made up to the first refusal. -/
theorem upToRefusal {stream : List κ} (h : Delivered (stream.map .call) log) :
    UpToRefusal stream log := by
  generalize plain : stream.map Item.call = items at h
  induction h generalizing stream with
  | none =>
    obtain rfl := List.map_eq_nil_iff.mp plain
    exact .nil
  | kept given kept _ ih =>
    obtain ⟨call, rest, rfl, same, tail⟩ := List.map_eq_cons_iff.mp plain
    cases same
    exact .keep given kept (ih tail)
  | refused given refused =>
    obtain ⟨call, rest, rfl, same, -⟩ := List.map_eq_cons_iff.mp plain
    cases same
    exact .stop given refused rest
  | block =>
    obtain ⟨call, rest, -, same, -⟩ := List.map_eq_cons_iff.mp plain
    cases same

theorem all_given (h : Delivered items log) (kept : ∀ e ∈ log, e.refused = false) :
    log.map (·.given) = items.flatMap Item.calls := by
  induction h with
  | none => rfl
  | kept given _ _ ih =>
    have rest := ih fun e member => kept e (by simp [member])
    simp [Item.calls, given, rest]
  | @refused e _ _ _ refused => simp [kept e (by simp)] at refused
  | block given inner _ ih =>
    have part := inner.all_given fun e member => kept e (by simp [member])
    have rest := ih fun e member => kept e (by simp [member])
    simp [Item.calls, given, part, rest]

end Delivered

/-- What a caller was given, beside its own state. -/
structure Log (π κ σ : Type) where
  messages : List (Exchange π Notice) := []
  calls : List (Exchange π κ) := []
  world : σ

namespace Log

/-- The sink with a log of its messages. -/
def sink (sink : π → σ → Notice → σ × Reply) (shown : π) (log : Log π κ σ) (notice : Notice) :
    Log π κ σ × Reply :=
  let (world, reply) := sink shown log.world notice
  (⟨log.messages ++ [⟨shown, notice, reply⟩], log.calls, world⟩, reply)

/-- The receiver with a log of its calls. -/
def receiver (receiver : π → Receiver σ κ) (shown : π) : Receiver (Log π κ σ) κ :=
  fun log call =>
    let (world, reply) := receiver shown log.world call
    (⟨log.messages, log.calls ++ [⟨shown, call, reply⟩], world⟩, reply)

end Log

/-- The exchange took place with the parser in such a state, and the reply is the function's. -/
def Exchange.Genuine (function : π → σ → κ → σ × Reply) (Shown : π → Prop) (e : Exchange π κ) :
    Prop :=
  Shown e.shown ∧ ∃ world, e.reply = (function e.shown world e.given).2

theorem Exchange.Genuine.mono {function : π → σ → κ → σ × Reply} {Shown Shown' : π → Prop}
    {e : Exchange π κ} (genuine : e.Genuine function Shown) (weaker : ∀ p, Shown p → Shown' p) :
    e.Genuine function Shown' :=
  ⟨weaker _ genuine.1, genuine.2⟩

/-- Nothing is refused by a function that keeps everything. -/
theorem Exchange.Genuine.not_refused {function : π → σ → κ → σ × Reply} {Shown : π → Prop}
    {e : Exchange π κ} (genuine : e.Genuine function Shown)
    (keeps : ∀ p world given, (function p world given).2 = .keep) : e.refused = false := by
  obtain ⟨-, world, answered⟩ := genuine
  rw [Exchange.refused, answered, keeps]
  rfl

section Logged

variable {sink : π → σ → Notice → σ × Reply} {receiver : π → Receiver σ κ} (shown : π)

/-- A log of the messages that a sink is given runs up to its refusal. -/
theorem hearAll_logged
    (calm : ∀ shown world notice reason, (sink shown world notice).2 ≠ .crash reason)
    (notices : List Notice) (log : Log π κ σ) :
    ∃ heard, (hearAll (Log.sink sink shown) (false, log) notices).2.messages =
        log.messages ++ heard ∧
      (hearAll (Log.sink sink shown) (false, log) notices).2.calls = log.calls ∧
      UpToRefusal notices heard ∧ ∀ e ∈ heard, e.Genuine sink (· = shown) := by
  induction notices generalizing log with
  | nil => exact ⟨[], by simp [hearAll], rfl, .nil, nofun⟩
  | cons notice notices ih =>
    have answers := calm shown log.world notice
    have step : hearAll (Log.sink sink shown) (false, log) (notice :: notices) =
        hearAll (Log.sink sink shown) (hear (Log.sink sink shown) (false, log) notice) notices :=
      rfl
    rw [step]
    rcases answered : sink shown log.world notice with ⟨world, _ | _ | reason⟩ <;>
      simp only [hear, Log.sink, answered, Bool.false_eq_true, if_false] at answers ⊢
    · obtain ⟨heard, messages, calls, given, genuine⟩ := ih
        ⟨log.messages ++ [⟨shown, notice, .keep⟩], log.calls, world⟩
      refine ⟨⟨shown, notice, .keep⟩ :: heard, by simpa using messages, calls,
        .keep rfl rfl given, ?_⟩
      simpa using ⟨⟨rfl, log.world, by rw [answered]⟩, genuine⟩
    · let e : Exchange π Notice := ⟨shown, notice, .detach⟩
      refine ⟨[e], by simp [e], by simp, .stop (e := e) rfl rfl notices, ?_⟩
      simpa [e] using ⟨rfl, log.world, by rw [answered]⟩
    · exact absurd rfl (answers reason)

theorem ask_logged
    (calm : ∀ shown world call reason, (receiver shown world call).2 ≠ .crash reason) (call : κ)
    (log : Log π κ σ) :
    ∃ e world, (Log.receiver receiver shown).ask call log =
        .ok (!e.refused) ⟨log.messages, log.calls ++ [e], world⟩ ∧
      e.given = call ∧ e.Genuine receiver (· = shown) := by
  have answers := calm shown log.world call
  simp only [Receiver.ask, Log.receiver]
  rcases answered : receiver shown log.world call with ⟨world, _ | _ | reason⟩ <;>
    rw [answered] at answers
  · exact ⟨⟨shown, call, .keep⟩, world, rfl, rfl, rfl, log.world, by rw [answered]⟩
  · exact ⟨⟨shown, call, .detach⟩, world, rfl, rfl, rfl, log.world, by rw [answered]⟩
  · exact absurd rfl (answers reason)

theorem calls_detached (receiver : Receiver σ κ) (calls : List κ) (world : σ) :
    Delivery.calls receiver ⟨true⟩ calls world = .ok ⟨true⟩ world := by
  induction calls with
  | nil => rfl
  | cons call calls ih => exact ih

/-- A log of calls runs up to the refusal, which leaves the delivery detached. -/
theorem calls_logged
    (calm : ∀ shown world call reason, (receiver shown world call).2 ≠ .crash reason)
    (calls : List κ) (log : Log π κ σ) :
    ∃ part world, Delivery.calls (Log.receiver receiver shown) {} calls log =
        .ok ⟨(part.findIdx? Exchange.refused).isSome⟩ ⟨log.messages, log.calls ++ part, world⟩ ∧
      UpToRefusal calls part ∧ ∀ e ∈ part, e.Genuine receiver (· = shown) := by
  induction calls generalizing log with
  | nil => exact ⟨[], log.world, by simp [Delivery.calls]; rfl, .nil, nofun⟩
  | cons call calls ih =>
    obtain ⟨e, world, asked, given, genuine⟩ := ask_logged shown calm call log
    rw [Delivery.calls, bind_apply]
    simp only [Delivery.call, Bool.false_eq_true, if_false, bind_apply, asked, pure_apply,
      Bool.not_not]
    cases reply : e.refused with
    | true =>
      refine ⟨[e], world, ?_, .stop given reply calls, by simpa using genuine⟩
      simpa [List.findIdx?_cons, reply] using calls_detached _ calls _
    | false =>
      obtain ⟨part, world', made, stream, rest⟩ := ih ⟨log.messages, log.calls ++ [e], world⟩
      refine ⟨e :: part, world', ?_, .keep given reply stream, by simpa using ⟨genuine, rest⟩⟩
      simpa [List.findIdx?_cons, reply] using made

theorem items_detached (receiver : Receiver σ κ) (items : List (Item κ)) (world : σ) :
    Delivery.items receiver ⟨true⟩ items world = .ok ⟨true⟩ world := by
  induction items with
  | nil => rfl
  | cons item items ih => cases item <;> exact ih

theorem items_logged
    (calm : ∀ shown world call reason, (receiver shown world call).2 ≠ .crash reason)
    (items : List (Item κ)) (log : Log π κ σ) :
    ∃ part world delivery, Delivery.items (Log.receiver receiver shown) {} items log =
        .ok delivery ⟨log.messages, log.calls ++ part, world⟩ ∧
      Delivered items part ∧ ∀ e ∈ part, e.Genuine receiver (· = shown) := by
  induction items generalizing log with
  | nil => exact ⟨[], log.world, {}, by simp [Delivery.items]; rfl, .none, nofun⟩
  | cons item items ih =>
    cases item with
    | call call =>
      obtain ⟨e, world, asked, given, genuine⟩ := ask_logged shown calm call log
      rw [Delivery.items, bind_apply]
      simp only [Delivery.call, Bool.false_eq_true, if_false, bind_apply, asked, pure_apply,
        Bool.not_not]
      cases reply : e.refused with
      | true =>
        refine ⟨[e], world, ⟨true⟩, items_detached _ items _, .refused given reply, ?_⟩
        simpa using genuine
      | false =>
        obtain ⟨part, world', delivery, made, delivered, rest⟩ :=
          ih ⟨log.messages, log.calls ++ [e], world⟩
        refine ⟨e :: part, world', delivery, ?_, .kept given reply delivered, ?_⟩
        · simpa using made
        · simpa using ⟨genuine, rest⟩
    | block opening inner =>
      obtain ⟨e, world, asked, given, genuine⟩ := ask_logged shown calm opening log
      obtain ⟨part, world', made, stream, inside⟩ :=
        calls_logged shown calm inner ⟨log.messages, log.calls ++ [e], world⟩
      obtain ⟨rest, world'', delivery, later, delivered, after⟩ :=
        ih ⟨log.messages, log.calls ++ [e] ++ part, world'⟩
      refine ⟨e :: part ++ rest, world'', delivery, ?_, .block given stream delivered, ?_⟩
      · change ((Log.receiver receiver shown).ask opening >>= fun _ =>
          Delivery.calls (Log.receiver receiver shown) {} inner >>= fun _ =>
            Delivery.items (Log.receiver receiver shown) {} items) log = _
        simp only [bind_apply, asked, made, later]
        simp
      · intro e' member
        simp only [List.cons_append, List.mem_cons, List.mem_append] at member
        rcases member with rfl | member | member
        · exact genuine
        · exact inside e' member
        · exact after e' member

end Logged

end Backtrack
