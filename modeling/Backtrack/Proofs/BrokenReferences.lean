import Backtrack.Proofs.Headers
import Backtrack.Proofs.LineTable
import Backtrack.Proofs.Lookahead
import Backtrack.Proofs.QuotedText
import Backtrack.Proofs.Terminators

/-! References that break off. While a reference is read one message waits, and each part that
matches puts its own in the place of the one before, whether the reading goes on from there or
another kind of reference is tried instead. So the message that is left says how far the reading
got, but for a sign of hexadecimal digits without any: there the rule for decimal digits has matched
a shorter sign since. -/
namespace Backtrack

variable {σ α : Type}

/-- One message waits, and no attempt has left another behind. -/
def Pending.lone (e : Entry) : Pending := ⟨#[e], #[]⟩

section Turning

variable {subject : Subject σ} {a b : Rule α} {pos mid next : Nat} {m : Option Nat}
  {e e' e'' : Entry} {d : Diagnostics σ}

theorem Diagnostics.rewind_lone (lone : d.pending = .lone e) {mark : DiagnosticMark}
    (level : mark.depth = 1) (start : Nat) : (d.rewind mark start).pending = .lone e := by
  have kept : (Pending.lone e).abandonFrom mark.depth start = .lone e :=
    Pending.abandonFrom_level (by rw [level]; exact Nat.le_refl 1)
  rw [rewind, lone]
  exact kept

/-- Behind the failure of the attempt that has pushed it the message is left over. -/
theorem Diagnostics.waiting_rewind (lone : d.pending = .lone e) {mark : DiagnosticMark}
    (level : mark.depth = 0) (start : Nat) : (d.rewind mark start).waiting = [e.notice] := by
  have left : ((Pending.lone e).abandonFrom mark.depth start).abandoned =
      #[⟨e, 0, start, false⟩] := by
    rw [level]
    rfl
  rw [waiting, rewind, lone]
  simp only [left]
  rfl

theorem Diagnostics.settle_lone (lone : d.pending = .lone e) (mark : DiagnosticMark) :
    (d.settle mark).pending = .lone e := by
  rw [settle, lone]
  simp [Pending.lone]

theorem Diagnostics.mark_lone (lone : d.pending = .lone e) : d.mark.depth = 1 := by
  rw [mark, lone]
  rfl

/-- The rule ends like this, and one message that waits when it begins has then given way to
another. -/
structure Rule.Turns (subject : Subject σ) (rule : Rule α) (pos : Nat) (m : Option Nat)
    (e e' : Entry) : Prop where
  recognizes : Recognizes subject.input rule pos m
  turns : ∀ {s s' : Matching σ α} {t : List (Performance σ)},
    Evaluates subject .attempt rule false pos s t (.ok m s') →
    s.diagnostics.pending = .lone e → s'.diagnostics.pending = .lone e'

namespace Rule.Turns

theorem effectless (plain : a.Effectless) (found : Recognizes subject.input a pos m) (e : Entry) :
    a.Turns subject pos m e e :=
  ⟨found, fun part lone => by rw [(part.effectless plain).2 _ _ rfl, lone]⟩

/-- An effect on a rule that fails is not performed. -/
theorem effect (part : a.Turns subject pos none e e') (x : Effect) :
    (Rule.effect a x).Turns subject pos none e e' := by
  refine ⟨.effect part.recognizes, fun whole lone => ?_⟩
  obtain ⟨s₁, inner, rewound⟩ := whole.effect_none
  rw [rewound]
  exact Diagnostics.rewind_lone (part.turns inner lone) (Diagnostics.mark_lone lone) pos

/-- A rule that matches puts its message in the place of the one that waits. -/
theorem prepare (bounded : subject.Bounded) (inside : pos ≤ subject.stop) (plain : a.Effectless)
    (matched : Recognizes subject.input a pos (some next)) (e : Entry) (message : Message) :
    (a.prepare message).Turns subject pos (some next) e
      ⟨message, subject.monitor.lines.line pos⟩ := by
  refine ⟨.effect matched, fun whole lone => ?_⟩
  obtain ⟨-, -, -, span, -, rfl, -, applied⟩ := whole.lone_effect_some bounded inside plain
  have waiting : ¬ (Pending.lone e).depth = 0 := Nat.one_ne_zero
  simp only [Diagnostics.apply, lone, if_neg waiting, EStateM.Result.ok.injEq, true_and] at applied
  rw [← applied]
  rfl

theorem seqFail (first : a.Turns subject pos none e e') : (a ++ b).Turns subject pos none e e' := by
  refine ⟨.seqFail first.recognizes, fun whole lone => ?_⟩
  obtain ⟨s₁, part, rewound⟩ | ⟨mid, _, _, _, _, part, -⟩ := whole.seq_none
  · rw [rewound]
    exact Diagnostics.rewind_lone (first.turns part lone) (Diagnostics.mark_lone lone) pos
  · cases part.recognizes.unique first.recognizes

theorem seq (first : a.Turns subject pos (some mid) e e')
    (second : b.Turns subject mid m e' e'') : (a ++ b).Turns subject pos m e e'' := by
  refine ⟨.seq first.recognizes second.recognizes, fun whole lone => ?_⟩
  cases m with
  | none =>
    obtain ⟨s₁, part, -⟩ | ⟨_, _, _, _, _, part, rest, -, rewound⟩ := whole.seq_none
    · cases part.recognizes.unique first.recognizes
    · cases part.recognizes.unique first.recognizes
      rw [rewound]
      exact Diagnostics.rewind_lone (second.turns rest (first.turns part lone))
        (Diagnostics.mark_lone lone) pos
  | some next =>
    obtain ⟨_, _, _, _, _, part, rest, -, settled⟩ := whole.seq_some
    cases part.recognizes.unique first.recognizes
    rw [settled]
    exact Diagnostics.settle_lone (second.turns rest (first.turns part lone)) _

theorem choiceLeft (left : a.Turns subject pos (some next) e e') :
    (a ||| b).Turns subject pos (some next) e e' := by
  refine ⟨.choiceLeft left.recognizes, fun whole lone => ?_⟩
  obtain ⟨s₁, part, settled⟩ | ⟨_, _, _, _, part, -⟩ := whole.choice_some
  · rw [settled]
    exact Diagnostics.settle_lone (left.turns part lone) _
  · cases part.recognizes.unique left.recognizes

/-- The other alternative begins with what the first one has left. -/
theorem choiceRight (left : a.Turns subject pos none e e') (right : b.Turns subject pos m e' e'') :
    (a ||| b).Turns subject pos m e e'' := by
  refine ⟨.choiceRight left.recognizes right.recognizes, fun whole lone => ?_⟩
  cases m with
  | none =>
    obtain ⟨_, _, _, _, part, rest, -, rewound⟩ := whole.choice_none
    rw [rewound]
    exact Diagnostics.rewind_lone (right.turns rest (left.turns part lone))
      (Diagnostics.mark_lone lone) pos
  | some next =>
    obtain ⟨_, part, -⟩ | ⟨_, _, _, _, part, rest, -, settled⟩ := whole.choice_some
    · cases part.recognizes.unique left.recognizes
    · rw [settled]
      exact Diagnostics.settle_lone (right.turns rest (left.turns part lone)) _

end Rule.Turns
end Turning

namespace Xml

/-- How far the reading of a reference got. -/
inductive Reach where
  | start
  | name
  | digitSign
  | digits
  | hexSign
  | hexDigits
  deriving DecidableEq

namespace Reach

/-- How far a reference at the beginning of the source can be read. -/
def ofSource (source : Bytes) : Reach :=
  if Text.utf8 "&#x" <+: source then
    if (source[3]?).any hexDigit.contains then hexDigits else hexSign
  else if Text.utf8 "&#" <+: source then
    if (source[2]?).any CharSet.digit.contains then digits else digitSign
  else if (source[1]?).any firstNameChar.contains then name else start

/-- What there is to say of a reference that got no further. -/
def message : Reach → Message
  | start => minor "Found start of reference, but not rest of its content."
  | name => minor "Found name for entity reference but no ending semicolon."
  | digitSign => minor "Found '&#' for start of digit reference, but no digits."
  | digits => minor "Found numbers for digits reference but no ending semicolon."
  | hexSign => minor "Found '&#x' for start of hexdigit reference, but no hexdigits."
  | hexDigits => minor "Found numbers for hexdigit reference but no ending semicolon."

/-- What is told of it. The rule for decimal digits finds its sign in that of hexadecimal ones,
and has the last word. -/
def told : Reach → Reach
  | hexSign => digitSign
  | reach => reach

/-- All of it lies on the first line. -/
def notice (reach : Reach) : Notice := ⟨reach.message, 1⟩

end Reach

section Reading

variable {subject : Subject σ} {m : Option Nat} {pos : Nat} {e : Entry}

theorem many1_set_fails {s : CharSet} {input : Bytes}
    (other : (input[pos]?).any s.contains = false) :
    Recognizes input (.many1 (.set s) : XmlRule) pos none :=
  .many1End (Recognizes.set_iff.mpr (by simp [other])) (.inl rfl)

theorem many1_set_matches {s : CharSet} {input : Bytes}
    (here : (input[pos]?).any s.contains = true) :
    ∃ next, Recognizes input (.many1 (.set s) : XmlRule) pos (some next) := by
  have once : Recognizes input (.set s : XmlRule) pos (some (pos + 1)) :=
    Recognizes.set_iff.mpr (by simp [here])
  obtain ⟨_ | next, others⟩ := Recognizes.exists input (.many (.set s) : XmlRule) (pos + 1)
  · exact absurd others Recognizes.not_many_none
  · exact ⟨next, .many1Next once (Nat.succ_ne_self pos) others⟩

/-- The subject of a parse that goes over all of the source. -/
structure Whole (subject : Subject σ) (source : Source) : Prop where
  bounded : subject.Bounded
  input : subject.input = source.toList
  lines : subject.monitor.lines = .ofSource source

namespace Reference

variable {source : Source} (whole : Whole subject source)
include whole

theorem prepares {a : XmlRule} {next : Nat} {front : Bytes} (begins : front <+: source.toList)
    (unbroken : 0x0A ∉ front) (plain : a.Effectless)
    (matched : Recognizes subject.input a front.length (some next)) (e : Entry)
    (message : Message) :
    (a.prepare message).Turns subject front.length (some next) e ⟨message, 1⟩ := by
  have inside : front.length ≤ subject.stop := by
    rw [← whole.bounded.length_input, whole.input]
    exact begins.length_le
  have turns := Rule.Turns.prepare whole.bounded inside plain matched e message
  rw [whole.lines, LineIndex.line_of_prefix begins unbroken] at turns
  exact turns

theorem sign_matches {sign : Bytes} (found : Text.utf8 "&" ++ sign <+: source.toList) :
    Recognizes subject.input (.literal sign : XmlRule) 1 (some (1 + sign.length)) := by
  obtain ⟨rest, text⟩ := found
  refine Recognizes.literal_iff.mpr (if_pos ?_).symm
  rw [whole.input, ← text]
  exact ⟨rest, rfl⟩

theorem sign_fails (opened : Text.utf8 "&" <+: source.toList) {sign : Bytes}
    (missing : ¬ Text.utf8 "&" ++ sign <+: source.toList) :
    Recognizes subject.input (.literal sign : XmlRule) 1 none := by
  obtain ⟨rest, text⟩ := opened
  refine Recognizes.literal_none_iff.mpr fun found => missing ?_
  rw [whole.input, ← text] at found
  rw [← text]
  exact (List.prefix_append_right_inj _).mpr found

section Signed

variable {a : XmlRule} {sign : Bytes} {s : CharSet}
  (found : Text.utf8 "&" ++ sign <+: source.toList) (plain : a.Effectless)
  (matched : Recognizes subject.input a 1 (some (1 + sign.length))) (act : Action)
  (said said' : Message) (e : Entry)
include found plain matched

theorem sign_turns : (a.prepare said).Turns subject 1 (some (1 + sign.length)) e ⟨said, 1⟩ := by
  have opened : Text.utf8 "&" <+: source.toList := .trans (List.prefix_append ..) found
  exact prepares whole opened (by decide) plain matched e said

/-- Digits behind the sign have the last word. -/
theorem number_turns (unbroken : 0x0A ∉ Text.utf8 "&" ++ sign)
    (numbered : (source.toList[1 + sign.length]?).any s.contains = true) :
    ∃ next, (a.prepare said ++ ((Rule.many1 (.set s)).action act).prepare said').Turns subject 1
      (some next) e ⟨said', 1⟩ := by
  obtain ⟨next, number⟩ := many1_set_matches (whole.input ▸ numbered)
  have behind : (Text.utf8 "&" ++ sign).length = 1 + sign.length := List.length_append
  have number : Recognizes subject.input ((Rule.many1 (.set s)).action act)
      (Text.utf8 "&" ++ sign).length (some next) := behind ▸ number.action
  have ended := prepares whole found unbroken (by rfl) number ⟨said, 1⟩ said'
  rw [behind] at ended
  exact ⟨next, (sign_turns whole found plain matched said e).seq ended⟩

/-- Without digits behind it the sign itself has the last word. -/
theorem bare_turns (bare : ¬ (source.toList[1 + sign.length]?).any s.contains = true) :
    (a.prepare said ++ ((Rule.many1 (.set s)).action act).prepare said').Turns subject 1
      none e ⟨said, 1⟩ := by
  have fails : Recognizes subject.input (.many1 (.set s) : XmlRule) (1 + sign.length) none :=
    many1_set_fails (by rw [whole.input]; simpa using bare)
  exact (sign_turns whole found plain matched said e).seq
    ((Rule.Turns.effectless (by rfl) fails.action _).effect _)

end Signed

section Kinds

theorem hex_unsigned (opened : Text.utf8 "&" <+: source.toList)
    (unhexed : ¬ Text.utf8 "&#x" <+: source.toList) (e : Entry) : hex.Turns subject 1 none e e := by
  have fails : Recognizes subject.input (Rule.text "#x" : XmlRule) 1 none :=
    sign_fails whole opened unhexed
  exact ((Rule.Turns.effectless (by rfl) fails e).effect _).seqFail

theorem digits_unsigned (opened : Text.utf8 "&" <+: source.toList)
    (unsigned : ¬ Text.utf8 "&#" <+: source.toList) (e : Entry) :
    digits.Turns subject 1 none e e := by
  have fails : Recognizes subject.input (char '#') 1 none :=
    Recognizes.byte_iff.mpr (sign_fails whole opened unsigned)
  exact ((Rule.Turns.effectless (by rfl) fails e).effect _).seqFail

theorem entity_unnamed (unnamed : ¬ (source.toList[1]?).any firstNameChar.contains = true)
    (e : Entry) : entity.Turns subject 1 none e e := by
  have fails : Recognizes subject.input (.set firstNameChar : XmlRule) 1 none :=
    Recognizes.set_iff.mpr (by rw [whole.input, if_neg unnamed])
  exact (Rule.Turns.effectless (by rfl) fails.seqFail.action.action e).effect _

theorem entity_named (opened : Text.utf8 "&" <+: source.toList)
    (named : (source.toList[1]?).any firstNameChar.contains = true) (e : Entry) :
    ∃ next, entity.Turns subject 1 (some next) e ⟨Reach.name.message, 1⟩ := by
  have begins : Recognizes subject.input (.set firstNameChar : XmlRule) 1 (some 2) :=
    Recognizes.set_iff.mpr (by rw [whole.input, if_pos named])
  obtain ⟨_ | next, others⟩ := Recognizes.exists subject.input (.many (.set nameChar) : XmlRule) 2
  · exact absurd others Recognizes.not_many_none
  · have token : Recognizes subject.input (Name.token.action (.reference .entity))
        (Text.utf8 "&").length (some next) := (Recognizes.seq begins others).action.action
    exact ⟨next, prepares whole opened (by decide) (by rfl) token e _⟩

/-- The sign of decimal digits stands also where that of hexadecimal ones does. -/
theorem decimal_sign (signed : Text.utf8 "&#" <+: source.toList) :
    Recognizes subject.input (char '#') 1 (some 2) :=
  Recognizes.byte_iff.mpr (sign_matches whole signed)

/-- Behind a sign of digits no name is found. -/
theorem entity_signed (signed : Text.utf8 "&#" <+: source.toList) (e : Entry) :
    entity.Turns subject 1 none e e := by
  refine entity_unnamed whole ?_ e
  obtain ⟨rest, text⟩ := signed
  rw [← text]
  exact Bool.false_ne_true

/-- Without hexadecimal digits behind their sign, decimal ones are looked for behind theirs. -/
theorem hexed_turns (hexed : Text.utf8 "&#x" <+: source.toList) :
    ∃ m, (Rule.firstOf [hex, digits, entity]).Turns subject 1 m ⟨Reach.start.message, 1⟩
      ⟨(Reach.ofSource source.toList).told.message, 1⟩ := by
  have signed : Text.utf8 "&#" <+: source.toList := .trans (by decide) hexed
  have sign : Recognizes subject.input (Rule.text "#x" : XmlRule) 1 (some 3) :=
    sign_matches whole hexed
  rw [Reach.ofSource, if_pos hexed]
  split
  next numbered =>
    obtain ⟨next, first⟩ := number_turns whole hexed (by rfl) sign (.reference .hexDigits)
      Reach.hexSign.message Reach.hexDigits.message ⟨Reach.start.message, 1⟩ (by decide) numbered
    exact ⟨_, first.choiceLeft.choiceLeft⟩
  next bare =>
    have undecimal : ¬ (source.toList[2]?).any CharSet.digit.contains = true := by
      obtain ⟨rest, text⟩ := hexed
      rw [← text]
      exact Bool.false_ne_true
    have first := bare_turns whole hexed (by rfl) sign (.reference .hexDigits)
      Reach.hexSign.message Reach.hexDigits.message ⟨Reach.start.message, 1⟩ bare
    have second := bare_turns whole signed (by rfl) (decimal_sign whole signed)
      (.reference .digits) Reach.digitSign.message Reach.digits.message
      ⟨Reach.hexSign.message, 1⟩ undecimal
    exact ⟨_, (first.choiceRight second).choiceRight (entity_signed whole signed _)⟩

theorem signed_turns (signed : Text.utf8 "&#" <+: source.toList)
    (unhexed : ¬ Text.utf8 "&#x" <+: source.toList) :
    ∃ m, (Rule.firstOf [hex, digits, entity]).Turns subject 1 m ⟨Reach.start.message, 1⟩
      ⟨(Reach.ofSource source.toList).told.message, 1⟩ := by
  have opened : Text.utf8 "&" <+: source.toList := .trans (by decide) signed
  have first := hex_unsigned whole opened unhexed ⟨Reach.start.message, 1⟩
  rw [Reach.ofSource, if_neg unhexed, if_pos signed]
  split
  next numbered =>
    obtain ⟨next, second⟩ := number_turns whole signed (by rfl) (decimal_sign whole signed)
      (.reference .digits) Reach.digitSign.message Reach.digits.message
      ⟨Reach.start.message, 1⟩ (by decide) numbered
    exact ⟨_, (first.choiceRight second).choiceLeft⟩
  next bare =>
    have second := bare_turns whole signed (by rfl) (decimal_sign whole signed)
      (.reference .digits) Reach.digitSign.message Reach.digits.message
      ⟨Reach.start.message, 1⟩ bare
    exact ⟨_, (first.choiceRight second).choiceRight (entity_signed whole signed _)⟩

theorem unsigned_turns (opened : Text.utf8 "&" <+: source.toList)
    (unsigned : ¬ Text.utf8 "&#" <+: source.toList) :
    ∃ m, (Rule.firstOf [hex, digits, entity]).Turns subject 1 m ⟨Reach.start.message, 1⟩
      ⟨(Reach.ofSource source.toList).told.message, 1⟩ := by
  have unhexed : ¬ Text.utf8 "&#x" <+: source.toList := fun hexed =>
    unsigned (.trans (by decide) hexed)
  have first := hex_unsigned whole opened unhexed ⟨Reach.start.message, 1⟩
  have second := digits_unsigned whole opened unsigned ⟨Reach.start.message, 1⟩
  rw [Reach.ofSource, if_neg unhexed, if_neg unsigned]
  split
  next named =>
    obtain ⟨next, last⟩ := entity_named whole opened named ⟨Reach.start.message, 1⟩
    exact ⟨_, (first.choiceRight second).choiceRight last⟩
  next bare =>
    exact ⟨_, (first.choiceRight second).choiceRight (entity_unnamed whole bare _)⟩

/-- The kinds of references are tried one after another, and the last part that matches has its
say. -/
theorem kinds_turn (opened : Text.utf8 "&" <+: source.toList) :
    ∃ m, (Rule.firstOf [hex, digits, entity]).Turns subject 1 m ⟨Reach.start.message, 1⟩
      ⟨(Reach.ofSource source.toList).told.message, 1⟩ := by
  by_cases hexed : Text.utf8 "&#x" <+: source.toList
  · exact hexed_turns whole hexed
  by_cases signed : Text.utf8 "&#" <+: source.toList
  · exact signed_turns whole signed hexed
  · exact unsigned_turns whole opened signed

end Kinds

/-- The first sign is followed by a message that waits. -/
theorem start_pushes (opened : Text.utf8 "&" <+: source.toList) {said : Message} {mid : Nat}
    {s s' : Matching σ Action} {t : List (Performance σ)} (empty : s.diagnostics.pending = {})
    (start : Evaluates subject .attempt ((char '&').push said) false 0 s t (.ok (some mid) s')) :
    mid = 1 ∧ s'.diagnostics.pending = .lone ⟨said, 1⟩ := by
  obtain ⟨matched, -, -, span, -, first, -, pushed⟩ :=
    start.lone_effect_some whole.bounded (Nat.zero_le _) (by rfl)
  have sign : Recognizes subject.input (char '&') 0 (some 1) := by
    obtain ⟨rest, text⟩ := opened
    refine Recognizes.set_iff.mpr ?_
    rw [whole.input, ← text]
    rfl
  have line : subject.monitor.lines.line span.start = 1 := by
    rw [first, whole.lines]
    exact LineIndex.line_of_prefix List.nil_prefix List.not_mem_nil
  simp only [Diagnostics.apply, line, EStateM.Result.ok.injEq, true_and] at pushed
  rw [← pushed, empty]
  exact ⟨Option.some.inj (matched.unique sign), rfl⟩

/-- A semicolon that is missing changes nothing any more. -/
theorem closed_turns (opened : Text.utf8 "&" <+: source.toList)
    (unclosed : Recognizes subject.input
      (Rule.firstOf [hex, digits, entity] ++ (char ';').cancel) 1 none) :
    (Rule.firstOf [hex, digits, entity] ++ (char ';').cancel).Turns subject 1 none
      ⟨Reach.start.message, 1⟩ ⟨(Reach.ofSource source.toList).told.message, 1⟩ := by
  obtain ⟨m, kinds⟩ := kinds_turn whole opened
  cases m with
  | none => exact kinds.seqFail
  | some next =>
    obtain ⟨unkind, -⟩ | ⟨_, kind, unended⟩ := Recognizes.seq_iff.mp unclosed
    · cases unkind.unique kinds.recognizes
    · cases kind.unique kinds.recognizes
      have missing : Recognizes subject.input (char ';') next none :=
        Recognizes.effect_iff.mp unended
      exact kinds.seq ((Rule.Turns.effectless (by rfl) missing _).effect _)

/-- The rule leaves the message of its last part behind where it fails. -/
theorem waiting_of_failure (opened : Text.utf8 "&" <+: source.toList)
    {s s' : Matching σ Action} {t : List (Performance σ)} (empty : s.diagnostics.pending = {})
    (failure : Evaluates subject .attempt rule false 0 s t (.ok none s')) :
    s'.diagnostics.waiting = [(Reach.ofSource source.toList).told.notice] := by
  obtain ⟨_, start, -⟩ | ⟨mid, s₁, _, _, s₂, start, body, -, rewound⟩ := failure.seq_none
  · obtain ⟨rest, text⟩ := opened
    have sign : Recognizes subject.input (char '&') 0 (some 1) :=
      Recognizes.set_iff.mpr (by rw [whole.input, ← text]; rfl)
    cases start.recognizes.unique sign.effect
  · obtain ⟨rfl, first⟩ := start_pushes whole opened empty start
    obtain ⟨unclosed, unskipped⟩ := Recognizes.choice_none_iff.mp body.recognizes
    have missing : Recognizes subject.input (skipToNul.action .invalid) 1 none :=
      Recognizes.effect_iff.mp (Recognizes.effect_iff.mp unskipped)
    have skips := ((Rule.Turns.effectless (by rfl) missing
      ⟨(Reach.ofSource source.toList).told.message, 1⟩).effect .pop).effect
        (.sendNow (minor "Unable to parse reference - skipping rest of content."))
    have last := ((closed_turns whole opened unclosed).choiceRight skips).turns body first
    rw [rewound]
    exact Diagnostics.waiting_rewind last (by rw [Diagnostics.mark, empty]; rfl) 0

end Reference
end Reading

theorem whole_subject (d : Driver) (verdict : List (Tree Action) → Bool) (source : Source) :
    Whole (d.subject (Driver.scribe verdict) source source.size) source := by
  have range : inputUpTo source (min source.size source.size) = source.toList := by
    rw [Nat.min_self, inputUpTo_size]
  exact ⟨d.subject_bounded _ source source.size, range,
    congrArg LineIndex.ofSource Array.extract_size⟩

/-- Without a NUL and without a reference at the beginning the rule fails, and has sent nothing. -/
theorem Reference.fails_of_malformed {source : Source} (lacks : 0 ∉ source.toList)
    (opened : Text.utf8 "&" <+: source.toList)
    (malformed : ∀ r : ReferenceText, ¬ r.print <+: source.toList) (d : Driver)
    (verdict : List (Tree Action) → Bool) :
    let subject := d.subject (Driver.scribe verdict) source source.size
    ∃ t s, Evaluates subject .attempt rule false 0 (Driver.fresh Action []) t (.ok none s) ∧
      noticesSent subject t = [] ∧
      s.diagnostics.waiting = [(Reach.ofSource source.toList).told.notice] := by
  intro subject
  have nul : Construct.reference ∈ Construct.skippingToNul := by decide
  have filled : source.toList ≠ [] := opened.ne_nil (List.cons_ne_nil _ _)
  obtain ⟨t, m, s, evaluation, silent⟩ := Construct.ends_unsent nul lacks d verdict
  cases m with
  | some next =>
    obtain ⟨f, derives, clean⟩ :=
      Construct.clean_of_unsent (Driver.refuse?_whole filled) evaluation silent
    obtain ⟨r, rest, split, -⟩ := Reference.spells.begins derives clean
    exact absurd ⟨rest, split.symm⟩ (malformed r)
  | none =>
    exact ⟨t, s, evaluation, silent,
      waiting_of_failure (whole_subject d verdict source) opened rfl evaluation⟩

theorem ReferenceText.semicolon_mem (r : ReferenceText) : 0x3B ∈ r.print :=
  List.mem_append_right _ (List.mem_singleton_self _)

end Xml

/-- The parser of references tells how far it got. Where a source without a NUL begins like a
reference and with none, it is not parsed, the receiver is given nothing, and there are two messages
to send: the one for the stage that was reached, and that nothing could be parsed. Where the sign of
hexadecimal digits stands without any, the one for the sign of decimal digits is sent instead. -/
theorem parse_diagnoses_reference (p : Xml.Parser) (source : Source) (client : Xml.Client σ)
    (world : σ) (idle : p.driver.busy = false) (budget : leastBudget ≤ p.driver.budget)
    (calm : client.Calm) (lacks : 0 ∉ source.toList) (opened : Text.utf8 "&" <+: source.toList)
    (malformed : ∀ r : Xml.ReferenceText, ¬ r.print <+: source.toList) :
    let run := p.parse .reference source client.logged { world }
    let messages := [(Xml.Reach.ofSource source.toList).told.notice, unfinished]
    p.parse .reference source client world = ⟨run.parser, run.world.world, run.outcome⟩ ∧
    run.outcome = .ok .notParsed ∧ run.world.calls = [] ∧
    UpToRefusal messages run.world.messages ∧
    (client.Attentive → run.world.messages.map (·.given) = messages) := by
  intro run messages
  have least : leastBudget = 4 := rfl
  have residue : Xml.Construct.reference.rule.residue = 1 := rfl
  have filled : source.toList ≠ [] := opened.ne_nil (List.cons_ne_nil _ _)
  obtain ⟨t, s, evaluation, silent, waiting⟩ :=
    Xml.Reference.fails_of_malformed lacks opened malformed p.driver (·.all Xml.isValid)
  have unsent : errorsSent (p.driver.subject (Driver.scribe (·.all Xml.isValid)) source
      source.size) t = 0 := by
    rw [errorsSent, ← noticesSent, silent]
    rfl
  obtain ⟨driver, -, -, fits⟩ := Driver.course_of_failure
    (Shipped.construct .reference).balanced idle (Driver.refuse?_whole filled) evaluation
    (by rw [unsent, residue]; omega)
  rw [packets_of_quiet silent, List.nil_append, waiting] at fits
  obtain ⟨heard, part, last, logged, stream, delivered, genuine, -⟩ :=
    p.parse_log .reference source world calm fits
  have run_eq : run = _ := logged
  have uncalled : Delivered [] part := delivered
  refine ⟨p.parse_logged .reference source client world, ?_⟩
  rw [run_eq]
  exact ⟨rfl, uncalled.eq_nil, stream,
    fun attentive => stream.all_given fun e member => (genuine e member).not_refused attentive⟩

/-- A hexadecimal number with a space where a semicolon belongs. -/
theorem parse_diagnoses_reference_hex :
    let source : Source := (Text.utf8 "&#x1F g").toArray
    let run := (({} : Xml.Parser).withBudget 0).parse .reference source Xml.Client.deaf.logged
      { world := () }
    (({} : Xml.Parser).withBudget 0).driver.busy = false ∧
    leastBudget ≤ (({} : Xml.Parser).withBudget 0).driver.budget ∧ Xml.Client.deaf.Calm ∧
    Xml.Client.deaf.Attentive ∧ 0 ∉ source.toList ∧ Text.utf8 "&" <+: source.toList ∧
    (∀ r : Xml.ReferenceText, ¬ r.print <+: source.toList) ∧
    Xml.Reach.ofSource source.toList = .hexDigits ∧ run.outcome = .ok .notParsed ∧
    run.world.calls = [] ∧
    run.world.messages.map (·.given) = [Xml.Reach.hexDigits.notice, unfinished] := by
  intro source run
  have calm : Xml.Client.deaf.Calm := Xml.Parser.deaf_calm
  have attentive : Xml.Client.deaf.Attentive := fun _ _ _ => rfl
  have budget : leastBudget ≤ (({} : Xml.Parser).withBudget 0).driver.budget := by decide
  have lacks : 0 ∉ source.toList := by decide
  have opened : Text.utf8 "&" <+: source.toList := by decide
  have unended : 0x3B ∉ source.toList := by decide
  have malformed (r : Xml.ReferenceText) (begins : r.print <+: source.toList) : False :=
    unended (begins.subset r.semicolon_mem)
  have reach : Xml.Reach.ofSource source.toList = .hexDigits := by decide +kernel
  obtain ⟨-, answered, uncalled, -, given⟩ := parse_diagnoses_reference (.withBudget {} 0) source
    .deaf () rfl budget calm lacks opened malformed
  rw [reach] at given
  exact ⟨rfl, budget, calm, attentive, lacks, opened, malformed, reach, answered, uncalled,
    given attentive⟩

/-- What there is to say of a sign of hexadecimal digits without any is not said of one. -/
theorem hex_sign_untold :
    let source : Source := (Text.utf8 "&#x").toArray
    let run := ({} : Xml.Parser).parse .reference source Xml.Client.deaf.logged { world := () }
    0 ∉ source.toList ∧ Text.utf8 "&" <+: source.toList ∧
    (∀ r : Xml.ReferenceText, ¬ r.print <+: source.toList) ∧
    Xml.Reach.ofSource source.toList = .hexSign ∧
    run.world.messages.map (·.given) = [Xml.Reach.digitSign.notice, unfinished] ∧
    run.world.messages.map (·.given) ≠ [Xml.Reach.hexSign.notice, unfinished] := by
  intro source run
  have unended : 0x3B ∉ source.toList := by decide
  have told : run.world.messages.map (·.given) = [Xml.Reach.digitSign.notice, unfinished] := by
    decide +kernel
  refine ⟨by decide, by decide, fun r begins => unended (begins.subset r.semicolon_mem),
    by decide, told, ?_⟩
  rw [told]
  decide

end Backtrack
