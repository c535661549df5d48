import Mathlib.Data.List.Chain
import Backtrack.Proofs.QuotedText
import Backtrack.Proofs.Written

/-! Attribute values and entity values lose nothing on their way to the receiver: the pieces that it
is given, written back out between two quotes, are the text that the closing call spans. -/
namespace Backtrack

variable {σ : Type}

namespace Xml

/-- The calls are the pieces of a text: written back out one after another they are the text, and
its plain stretches are not divided. -/
structure Pieces (calls : List Call) (text : Bytes) : Prop where
  pieces : ∀ call ∈ calls, call.isValue = true ∨ call.isMarkup = true
  written : calls.flatMap Call.written = text
  filled : ∀ call ∈ calls, call.isValue = true → call.written ≠ []
  apart : calls.IsChain fun a b => ¬ (a.isValue = true ∧ b.isValue = true)

theorem Call.not_isValue_of_isMarkup {call : Call} (marked : call.isMarkup = true) :
    call.isValue = false := by
  cases call <;> first | rfl | cases marked

namespace Pieces

variable {calls : List Call} {text : Bytes}

theorem nil : Pieces [] [] := ⟨by simp, rfl, by simp, .nil⟩

theorem cons_markup {call : Call} (marked : call.isMarkup = true) (h : Pieces calls text) :
    Pieces (call :: calls) (call.written ++ text) where
  pieces := List.forall_mem_cons.mpr ⟨.inr marked, h.pieces⟩
  written := by rw [List.flatMap_cons, h.written]
  filled := by
    refine List.forall_mem_cons.mpr ⟨fun plain => ?_, h.filled⟩
    rw [Call.not_isValue_of_isMarkup marked] at plain
    cases plain
  apart := h.apart.cons fun y _ both => by
    rw [Call.not_isValue_of_isMarkup marked] at both
    cases both.1

theorem cons_value {span : Span} (filled : span.bytes ≠ []) (h : Pieces calls text)
    (marked : ∀ call ∈ calls.head?, call.isMarkup = true) :
    Pieces (.value span :: calls) (span.bytes ++ text) where
  pieces := List.forall_mem_cons.mpr ⟨.inl rfl, h.pieces⟩
  written := by rw [List.flatMap_cons, h.written, Call.written]
  filled := List.forall_mem_cons.mpr ⟨fun _ => filled, h.filled⟩
  apart := h.apart.cons fun y first both => by
    rw [Call.not_isValue_of_isMarkup (marked y first)] at both
    cases both.2

/-- Plain text in front of markup. -/
theorem run (h : Pieces calls text) {s : CharSet} (run : Run s) {source : Source} {pos : Nat}
    {rest : Bytes} (faces : Faces source.toList pos (run.bytes ++ rest))
    (marked : ∀ call ∈ calls.head?, call.isMarkup = true) :
    Pieces (run.calls source pos ++ calls) (run.bytes ++ text) := by
  by_cases none : run.bytes = []
  · simpa [Run.calls, none] using h
  · have bytes := ofText_bytes faces
    have filled : (Span.ofText source pos run.bytes).bytes ≠ [] := bytes.symm ▸ none
    have whole := h.cons_value filled marked
    rw [bytes] at whole
    simpa [Run.calls, none] using whole

end Pieces

namespace ValueGrammar

variable {μ : Type} (g : ValueGrammar μ) {q : Quote} {source : Source} {rest : Bytes}

theorem others_marked (others : List (μ × Run (plainIn q))) (pos : Nat) :
    ∀ call ∈ (spread (MixedText.printOther g.print) (MixedText.otherCalls g.print g.call source)
      others pos).head?, call.isMarkup = true := by
  cases others with
  | nil => simp [spread]
  | cons other others => simp [spread, MixedText.otherCalls, g.marked]

theorem others_pieces (others : List (μ × Run (plainIn q))) {pos : Nat}
    (faces : Faces source.toList pos
      (others.flatMap (MixedText.printOther g.print) ++ rest)) :
    Pieces (spread (MixedText.printOther g.print) (MixedText.otherCalls g.print g.call source)
      others pos) (others.flatMap (MixedText.printOther g.print)) := by
  induction others generalizing pos with
  | nil => exact .nil
  | cons other others ih =>
    obtain ⟨m, run⟩ := other
    simp only [List.flatMap_cons, MixedText.printOther, List.append_assoc] at faces
    have plain := (ih faces.step.step).run run faces.step (g.others_marked others _)
    have whole := plain.cons_markup (g.marked source m pos)
    rw [g.written source m pos _ faces] at whole
    simpa [spread, MixedText.printOther, MixedText.otherCalls, Nat.add_assoc] using whole

/-- The calls for the content of a value are its pieces. -/
theorem content_pieces (content : MixedText μ (plainIn q)) {pos : Nat}
    (faces : Faces source.toList pos (content.print g.print ++ rest)) :
    Pieces (content.calls g.print g.call source pos) (content.print g.print) := by
  rw [MixedText.print, List.append_assoc] at faces
  exact (g.others_pieces content.others faces.step).run content.first faces
    (g.others_marked content.others _)

end ValueGrammar

/-- The constructs that are values between quotes. -/
inductive QuotedValue where
  | ofAttribute
  | ofEntity

namespace QuotedValue

def construct : QuotedValue → Construct
  | ofAttribute => .attributeValue
  | ofEntity => .entityValue

/-- What may stand in the plain text of the value. -/
def Markup : QuotedValue → Type
  | ofAttribute => ReferenceText
  | ofEntity => MarkupText

def grammar : (kind : QuotedValue) → ValueGrammar kind.Markup
  | ofAttribute => AttributeValue.grammar
  | ofEntity => EntityValue.grammar

theorem construct_rule (kind : QuotedValue) : kind.construct.rule = kind.grammar.rule := by
  cases kind <;> rfl

theorem construct_items (kind : QuotedValue) (tree : Tree Action) :
    kind.construct.items tree = (kind.grammar.calls tree).map .call := by
  cases kind <;> rfl

variable (kind : QuotedValue)

theorem spells : Spells kind.construct.rule kind.grammar.printValue :=
  kind.construct_rule ▸ kind.grammar.rule_spells

theorem tells (v : QuotedText kind.Markup) (rest : Bytes) :
    Tells kind.construct.items kind.construct.rule (kind.grammar.printValue v) rest
      fun source pos => (kind.grammar.valueCalls source v pos).map .call :=
  kind.construct_rule ▸ kind.grammar.rule_tells (List.map Item.call)
    (fun _ _ _ => kind.construct_items _) v rest

theorem printValue_ne_nil (v : QuotedText kind.Markup) : kind.grammar.printValue v ≠ [] :=
  List.cons_ne_nil _ _

end QuotedValue
end Xml

/-- Nothing of a quoted value is lost or said twice. What the parser finds valid begins with a
value: the receiver is given its pieces and then the call that closes it, and the pieces written
back out between two quotes of the kind that this call names are the text from the start of the
source that it spans. Plain text comes in stretches that are neither empty nor divided. The parser
finds a source valid as a whole just where it is one value: plain text, and references each with
the plain text behind it, between two quotes of one kind. -/
theorem parse_writes_back (kind : Xml.QuotedValue) (p : Xml.Parser) (source : Source)
    (client : Xml.Client σ) (world : σ) (idle : p.driver.busy = false)
    (budget : 0 < p.driver.budget) (calm : client.Calm) :
    let run := p.parse kind.construct source client.logged { world }
    p.parse kind.construct source client world = ⟨run.parser, run.world.world, run.outcome⟩ ∧
    (run.outcome = .ok .allValid ↔
      ∃ v : Xml.QuotedText kind.Markup, source.toList = kind.grammar.printValue v) ∧
    ∀ outcome, run.outcome = .ok outcome → outcome.isGood = true → client.Accepting →
      ∃ (pieces : List Xml.Call) (text : Bytes) (q : Xml.Quote) (span : Span),
        run.world.calls.map (·.given) = pieces ++ [kind.grammar.done true q.isSingle span] ∧
        Xml.Pieces pieces text ∧ span.source = source ∧ span.start = 0 ∧
        span.bytes = q.enclose text := by
  intro run
  refine ⟨p.parse_logged kind.construct source client world,
    p.parse_allValid_iff kind.construct source world idle budget calm kind.spells
      (fun v => kind.tells v []) kind.printValue_ne_nil, fun outcome returned good accepting => ?_⟩
  obtain ⟨v, rest, split, -⟩ :=
    p.written_of_isGood kind.construct source _ idle kind.spells client.logged returned good
  obtain ⟨-, -, -, -, -, given⟩ :=
    p.parse_written kind.construct source world idle budget calm (kind.tells v rest)
      (kind.printValue_ne_nil v) split
  have start : Faces source.toList 0 (kind.grammar.printValue v ++ rest) :=
    ⟨Nat.zero_le _, split⟩
  have inner : Faces source.toList 0
      ([v.quote.byte] ++ (v.content.print kind.grammar.print ++ ([v.quote.byte] ++ rest))) := by
    simpa [Xml.ValueGrammar.printValue, Xml.Quote.enclose] using start
  have calls : run.world.calls.map (·.given) = kind.grammar.valueCalls source v 0 := by
    rw [given accepting, List.flatMap_map]
    exact List.flatMap_singleton' _
  refine ⟨_, _, v.quote, _, calls, kind.grammar.content_pieces v.content inner.step, rfl, ?_, ?_⟩
  · exact Nat.zero_min _
  · exact Xml.ofText_bytes start

/-- References of two kinds and a parameter between single quotes, with more behind them. -/
theorem parse_writes_back_entity :
    let source : Source := (Text.utf8 "'a&b;%c;&#1;'more").toArray
    let run := ({} : Xml.Parser).parse .entityValue source Xml.Client.deaf.logged { world := () }
    ({} : Xml.Parser).driver.busy = false ∧ 0 < ({} : Xml.Parser).driver.budget ∧
    Xml.Client.deaf.Calm ∧ run.outcome = .ok .someValid ∧ Outcome.someValid.isGood = true ∧
    Xml.Client.deaf.Accepting ∧
    ∃ (pieces : List Xml.Call) (text : Bytes) (q : Xml.Quote) (span : Span),
      run.world.calls.map (·.given) = pieces ++ [.entityValueDone true q.isSingle span] ∧
      Xml.Pieces pieces text ∧ span.source = source ∧ span.start = 0 ∧
      span.bytes = q.enclose text := by
  intro source run
  have calm : Xml.Client.deaf.Calm := Xml.Parser.deaf_calm
  have accepting : Xml.Client.deaf.Accepting := fun _ _ _ => rfl
  obtain ⟨-, -, told⟩ := parse_writes_back .ofEntity {} source .deaf () rfl (by decide) calm
  let none : Xml.Run (Xml.plainIn .single) := ⟨[], by simp⟩
  let name (first : UInt8) (begins : Xml.firstNameChar.contains first = true) : Xml.NameText :=
    ⟨first, ⟨[], by simp⟩, begins⟩
  let v : Xml.QuotedText Xml.MarkupText := ⟨.single, ⟨[0x61], List.forall_mem_singleton.mpr rfl⟩,
    [(.reference (.entity (name 0x62 rfl)), none), (.parameter (name 0x63 rfl), none),
      (.reference (.digits ⟨⟨[0x31], List.forall_mem_singleton.mpr rfl⟩, by decide⟩), none)]⟩
  have returned : run.outcome = .ok .someValid :=
    (Xml.Parser.parse_written {} .entityValue source () rfl (by decide) calm
      (Xml.QuotedValue.ofEntity.tells v (Text.utf8 "more")) (List.cons_ne_nil _ _) rfl).1
  exact ⟨rfl, by decide, calm, returned, rfl, accepting, told _ returned rfl accepting⟩

end Backtrack
