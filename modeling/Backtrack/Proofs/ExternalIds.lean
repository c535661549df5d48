import Backtrack.Proofs.Inversion
import Backtrack.Proofs.Prologs
import Backtrack.Proofs.QuotedText

/-! External identifiers as they are written. Their parser finds these valid and no others, and
delivers the literals of one, each with the kind of its quotes. A public-id literal with a foreign
character in it is skipped through the quote that closes it: what stands behind may still be read,
but the identifier is not valid any more. -/
namespace Backtrack

variable {σ : Type}

namespace Xml

/-- Text between quotes, whose bytes depend on the kind of the quotes. -/
structure LiteralText (s : Quote → CharSet) where
  quote : Quote
  content : Run (s quote)

/-- What may stand in a public-id literal. -/
def publicIn (q : Quote) : CharSet := publicIdChar \ .ofBytes [q.byte]

/-- What may stand in a system literal. -/
def systemIn (q : Quote) : CharSet := ~~~CharSet.ofBytes [q.byte]

inductive ExternalIdText where
  | system (gap : Space) (id : LiteralText systemIn)
  | publicId (gap : Space) (id : LiteralText publicIn) (gap' : Space)
    (system : LiteralText systemIn)

section Printing

namespace LiteralText

variable {s : Quote → CharSet} (l : LiteralText s)

def print : Bytes := l.quote.enclose l.content.bytes

/-- What is quoted, and whether the quotes are single. -/
def quoted : Bytes × Bool := (l.content.bytes, l.quote.isSingle)

end LiteralText

namespace ExternalIdText

/-- What stands in front of the system literal. -/
def front : ExternalIdText → Bytes
  | system gap _ => Text.utf8 "SYSTEM" ++ gap.bytes
  | publicId gap id gap' _ => Text.utf8 "PUBLIC" ++ gap.bytes ++ id.print ++ gap'.bytes

def literal : ExternalIdText → LiteralText systemIn
  | system _ id | publicId _ _ _ id => id

def print (d : ExternalIdText) : Bytes := d.front ++ d.literal.print

def contents : ExternalIdText → List (Bytes × Bool)
  | system _ id => [id.quoted]
  | publicId _ id _ id' => [id.quoted, id'.quoted]

end ExternalIdText

end Printing

section Saying

variable (source : Source)

/-- A call on the content of a literal that begins at the position. -/
def LiteralText.call {s : Quote → CharSet} (make : Span → Bool → Call) (l : LiteralText s)
    (pos : Nat) : Call :=
  make (.ofText source (pos + 1) l.content.bytes) l.quote.isSingle

namespace ExternalIdText

/-- The call for the public-id literal, if there is one. -/
def publicCalls (pos : Nat) : ExternalIdText → List Call
  | system _ _ => []
  | publicId gap id _ _ =>
    [id.call source .publicIdLiteral (pos + (Text.utf8 "PUBLIC").length + gap.bytes.length)]

/-- The calls for an identifier that begins at the position. -/
def calls (d : ExternalIdText) (pos : Nat) : List Call :=
  d.publicCalls source pos ++ [d.literal.call source .systemLiteral (pos + d.front.length),
    .externalIdDone true (.ofText source pos d.print)]

end ExternalIdText

/-- What a call on a literal shows. -/
def Call.literal? : Call → Option (Bytes × Bool)
  | publicIdLiteral literal single | systemLiteral literal single => some (literal.bytes, single)
  | _ => none

end Saying

section Spelling

/-- A literal in quotes of one kind. -/
theorem literal_spells (s : Quote → CharSet) (q : Quote) (kind : String) (act : Action) :
    Spells (literal q kind (.many (.set (s q))) act) (LiteralText.print (s := s)) :=
  (((Rule.Spells.byte _).effect _).seq ((((((run_spells _).action _).effect _).seq
    ((Rule.Spells.byte _).effect _)).map (·.1) fun _ => rfl).choice
      (((skipped_spells _ fun run : Run (s q) => run.bytes ++ [q.byte]).effect _).effect _))).map
    (fun parts => ⟨q, parts.2⟩) fun _ => (List.append_assoc ..).symm

theorem PublicId.spells : Spells rule (LiteralText.print (s := publicIn)) :=
  Rule.Spells.choice (literal_spells publicIn .single _ _) (literal_spells publicIn .double _ _)

namespace ExternalId

theorem systemLiteral_spells (q : Quote) :
    Spells (systemLiteral q) (LiteralText.print (s := systemIn)) :=
  literal_spells systemIn q _ _

/-- What the rule reads in front of the last space. -/
def front : XmlRule :=
  (Rule.text "PUBLIC").push (minor "Found start of public literal, but no contents.") ++
      separator ++ PublicId.rule.prepare
        (minor "Expected to find white space between public ID and system literals.") |||
    (Rule.text "SYSTEM").push (minor "Found start of system literal, but no contents.")

theorem front_spells : Spells front
    fun parts : Option (Space × LiteralText publicIn) => parts.elim (Text.utf8 "SYSTEM")
      fun parts => Text.utf8 "PUBLIC" ++ parts.1.bytes ++ parts.2.print := by
  have opening (word : String) (message : Message) :
      Spells ((Rule.text word).push message) fun _ : Unit => Text.utf8 word :=
    (Rule.Spells.literal _).effect _
  exact ((((opening "PUBLIC" _).seq (spaces_spells.effect _)).seq (PublicId.spells.effect _)).map
    (fun parts => some (parts.1.2, parts.2)) fun _ => rfl).choice
      ((opening "SYSTEM" _).map (fun _ => none) fun _ => rfl)

/-- A match that skips nothing is over an external identifier. -/
theorem spells : Spells rule ExternalIdText.print := by
  have body : Spells (separator ++ (systemLiteral .single ||| systemLiteral .double).cancel) _ :=
    (spaces_spells.effect _).seq
      (((systemLiteral_spells .single).choice (systemLiteral_spells .double)).effect _)
  have whole := front_spells.seq (body.choice (((skipped_spells skipToNul _).effect
    (.sendNow (major "Unable to parse external ID reference."))).effect .pop))
  refine (whole.map (fun parts => parts.1.elim (.system parts.2.1 parts.2.2)
    fun front => .publicId front.1 front.2 parts.2.1 parts.2.2) ?_).action _
  rintro ⟨_ | ⟨gap, id⟩, gap', system⟩ <;>
    simp [ExternalIdText.print, ExternalIdText.front, ExternalIdText.literal]

end ExternalId
end Spelling

section Telling

variable {β : Type} {rest : Bytes}

theorem literal_tells {s : Quote → CharSet} (l : LiteralText s)
    (outside : (s l.quote).contains l.quote.byte = false) (kind : String) {act : Action}
    (sound : (act == .invalid) = false) (view : Tree Action → List β) (rest : Bytes) :
    Tells view (literal l.quote kind (.many (.set (s l.quote))) act) l.print rest
      fun source pos => view (.node act (.ofText source (pos + 1) l.content.bytes) []) := by
  have barred : Bars (s l.quote) ([l.quote.byte] ++ rest) := bars_cons outside rest
  have told : Tells view ((Rule.many (.set (s l.quote))).action act) l.content.bytes
      ([l.quote.byte] ++ rest) _ :=
    .leaf (.many_set l.content.inside barred) rfl sound
  refine (((mark_tells view l.quote _).effect _).seq
    ((told.effect _).seq ((mark_tells _ l.quote rest).effect _)).choiceLeft).as ?_ fun _ _ => ?_
  · exact (List.append_assoc ..).symm
  · simp

theorem literal_rejects {q r : Quote} (other : q ≠ r) (kind : String) (content : XmlRule)
    (act : Action) (x rest : Bytes) : (literal q kind content act).Rejects (r.enclose x ++ rest) :=
  .seq (.effect (mark_rejects q other x rest) _)

/-- Of the rules for either kind of quotes the one for the quotes that stand there decides. -/
theorem either_tells {quoted : Quote → XmlRule} {view : Tree Action → List β} {q : Quote}
    {x : Bytes} {said : Source → Nat → List β} (told : Tells view (quoted q) x rest said)
    (others : ∀ r, r ≠ q → (quoted r).Rejects (x ++ rest)) :
    Tells view (quoted .single ||| quoted .double) x rest said := by
  cases q with
  | single => exact told.choiceLeft
  | double => exact told.choiceRight (others .single nofun)

theorem PublicId.tells (id : LiteralText publicIn) (rest : Bytes) :
    Tells ExternalId.partCalls rule id.print rest
      fun source pos => [id.call source .publicIdLiteral pos] := by
  have told : Tells ExternalId.partCalls (quoted id.quote) id.print rest _ :=
    literal_tells id (by cases id.quote <;> decide) _ rfl _ rest
  exact either_tells told fun r other => literal_rejects other _ _ _ _ _

theorem ExternalId.systemLiteral_tells (id : LiteralText systemIn) (rest : Bytes) :
    Tells partCalls (systemLiteral .single ||| systemLiteral .double) id.print rest
      fun source pos => [id.call source .systemLiteral pos] := by
  have told : Tells partCalls (systemLiteral id.quote) id.print rest _ :=
    literal_tells id (by cases id.quote <;> decide) _ rfl _ rest
  exact either_tells told fun r other => literal_rejects other _ _ _ _ _

/-- The last literal, behind the last space. -/
theorem ExternalId.body_tells (gap : Space) (id : LiteralText systemIn) (rest : Bytes) :
    Tells partCalls (separator ++ (systemLiteral .single ||| systemLiteral .double).cancel)
      (gap.bytes ++ id.print) rest fun source pos =>
        [id.call source .systemLiteral (pos + gap.bytes.length)] := by
  have space : separator.Reads gap.bytes (id.print ++ rest) :=
    (Space.reads gap (bars_cons (by cases id.quote <;> rfl) _)).effect _
  exact (space.tells rfl).seq ((systemLiteral_tells id rest).effect _)

/-- The identifier as a whole, whose parts tell their calls. -/
theorem ExternalId.tells_done {parts : XmlRule} {x : Bytes} {said : Source → Nat → List Call}
    (told : Tells partCalls parts x rest said) :
    Tells Construct.externalId.items (parts.action .externalId) x rest fun source pos =>
      (said source pos ++ [Call.externalIdDone true (.ofText source pos x)]).map .call := by
  refine told.action rfl fun source pos f shown clean => ?_
  have valid := isValid_node .externalId rfl (.ofText source pos x) clean
  have calls : ExternalId.calls (.node .externalId (.ofText source pos x) f) =
      said source pos ++ [.externalIdDone true (.ofText source pos x)] := by
    simp only [ExternalId.calls, Tree.action, Tree.children, Tree.span, shown, valid]
  exact congrArg (List.map Item.call) calls

/-- The rule matches an identifier and tells it. -/
theorem ExternalIdText.tells (d : ExternalIdText) (rest : Bytes) :
    Tells Construct.externalId.items ExternalId.rule d.print rest fun source pos =>
      (d.calls source pos).map .call := by
  have opening (word : String) (message : Message) (rest : Bytes) :
      Tells ExternalId.partCalls ((Rule.text word).push message) (Text.utf8 word) rest _ :=
    (Rule.Tells.literal _ _).effect _
  cases d with
  | system gap id =>
    refine (ExternalId.tells_done (((opening "SYSTEM" _ _).choiceRight ?_).seq
      (ExternalId.body_tells gap id rest).choiceLeft)).as ?_ fun source pos => ?_
    · exact .seq (.seq (.effect (.literal_apart (by decide) _) _))
    · simp [print, front, literal]
    · simp [calls, publicCalls, print, front, literal, Nat.add_assoc]
  | publicId gap id gap' system =>
    have space (rest : Bytes) : ExternalId.separator.Reads gap.bytes (id.print ++ rest) :=
      (Space.reads gap (bars_cons (by cases id.quote <;> rfl) _)).effect _
    refine (ExternalId.tells_done (((((opening "PUBLIC" _ _).seq ((space _).tells rfl)).seq
      ((PublicId.tells id _).effect _)).choiceLeft).seq
        (ExternalId.body_tells gap' system rest).choiceLeft)).as ?_ fun source pos => ?_
    · simp [print, front, literal]
    · simp [calls, publicCalls, print, front, literal, Nat.add_assoc]

end Telling

section Spoiling

variable {source : Source} {pos next : Nat} {f : List (Tree Action)} {q : Quote} {x rest : Bytes}

/-- A foreign byte in front of the closing quote stops the content short of that quote. -/
theorem content_rejects {s : CharSet} (closed : q.byte ∉ x)
    (foreign : ∃ b ∈ x, s.contains b = false) (act : Action) (message : Message) (rest : Bytes) :
    (((Rule.many (.set s)).action act).prepare message ++ (mark q).cancel).Rejects
      (x ++ ([q.byte] ++ rest)) := by
  obtain ⟨c, first⟩ : ∃ c, x.find? (!s.contains ·) = some c := by
    refine Option.isSome_iff_exists.mp (List.find?_isSome.mpr ?_)
    obtain ⟨b, member, outside⟩ := foreign
    exact ⟨b, member, by simp [outside]⟩
  obtain ⟨outside, front, more, rfl, all⟩ := List.find?_eq_some_iff_append.mp first
  have other : ¬ (CharSet.ofBytes [q.byte]).contains c = true := fun same => by
    obtain rfl := (CharSet.contains_byte _ _).mp same
    exact closed (by simp)
  have reads : (((Rule.many (.set s)).action act).prepare message).Reads front
      (c :: more ++ ([q.byte] ++ rest)) :=
    fun input pos faces => .effect (.action
      (Rule.Reads.many_set (by simpa using all) (bars_cons (by simpa using outside) _) input pos
        faces))
  have rejects : (mark q).cancel.Rejects (c :: more ++ ([q.byte] ++ rest)) :=
    .effect (.set (bars_cons (by simpa using other) _)) _
  rw [List.append_assoc]
  exact .seqSecond reads rejects

/-- A spoilt public-id literal is skipped. -/
theorem PublicId.derives_spoilt (closed : q.byte ∉ x)
    (foreign : ∃ b ∈ x, publicIdChar.contains b = false)
    (faces : Faces (inputUpTo source source.size) pos (q.enclose x ++ rest))
    (derives : Derives source source.size rule pos next f) :
    ∃ span, f = [.node .invalid span []] := by
  obtain ⟨r, quoted⟩ : ∃ r, Derives source source.size (quoted r) pos next f := by
    rcases Derives.choice_iff.mp derives with single | ⟨-, double⟩
    · exact ⟨_, single⟩
    · exact ⟨_, double⟩
  have same : r = q := by
    by_contra other
    exact quoted.not_fails (literal_rejects other _ _ _ x rest _ _ faces)
  subst same
  obtain ⟨mid, g, h, opening, body, rfl⟩ := Derives.seq_iff.mp quoted
  obtain rfl : g = [] := opening.unmarked rfl
  rw [Quote.enclose, List.append_assoc, List.append_assoc] at faces
  have opened : Derives source source.size (mark r : XmlRule) pos (pos + 1) [] :=
    (byte_reads r.byte _).derives rfl faces
  obtain rfl : mid = pos + 1 := opened.same_end (Derives.effect_iff.mp opening)
  rcases Derives.choice_iff.mp body with whole | ⟨-, skip⟩
  · have stops : ∃ b ∈ x, (publicIn r).contains b = false := by
      obtain ⟨b, member, outside⟩ := foreign
      refine ⟨b, member, Bool.eq_false_iff.mpr fun inside => ?_⟩
      have within := CharSet.contains_of_within (t := publicIdChar) (by cases r <;> rfl) inside
      exact absurd within (by simp [outside])
    exact absurd (content_rejects closed stops _ _ rest _ _ faces.step) whole.not_fails
  · obtain ⟨span, k, plain, -, -, -, rfl⟩ :=
      Derives.action_iff.mp (Derives.effect_iff.mp (Derives.effect_iff.mp skip))
    obtain rfl := plain.unmarked rfl
    exact ⟨span, rfl⟩

/-- Only a node for a public-id literal shows one. -/
theorem ExternalId.publicId_of_partCalls {tree : Tree Action} {span : Span} {single : Bool}
    (shown : .publicIdLiteral span single ∈ partCalls tree) :
    ∃ q, tree.action = .publicIdLiteral q := by
  unfold partCalls PublicId.calls at shown
  split at shown
  · simp at shown
  · split at shown
    next q action => exact ⟨q, action⟩
    next => cases shown

/-- Behind `PUBLIC` the space is read as it stands, and then the literal is skipped. -/
theorem ExternalId.front_spoilt (gap : Space) (closed : q.byte ∉ x)
    (foreign : ∃ b ∈ x, publicIdChar.contains b = false)
    (faces : Faces (inputUpTo source source.size) pos
      (Text.utf8 "PUBLIC" ++ (gap.bytes ++ (q.enclose x ++ rest))))
    (derives : Derives source source.size front pos next f) :
    ∃ span, f = [.node .invalid span []] := by
  rcases Derives.choice_iff.mp derives with isPublic | ⟨-, isSystem⟩
  · obtain ⟨near, before, literal, opening, skipped, rfl⟩ := Derives.seq_iff.mp isPublic
    obtain rfl : before = [] := opening.unmarked rfl
    have reads : ((Rule.text "PUBLIC").push
        (minor "Found start of public literal, but no contents.") ++ separator).Reads
          (Text.utf8 "PUBLIC" ++ gap.bytes) (q.enclose x ++ rest) :=
      ((Rule.Reads.literal _ _).effect _).seq
        ((gap.reads (bars_cons (by cases q <;> rfl) _)).effect _)
    rw [← List.append_assoc] at faces
    obtain rfl : near = _ := (reads.derives rfl faces).same_end opening
    exact PublicId.derives_spoilt closed foreign faces.step (Derives.effect_iff.mp skipped)
  · have apart : (Rule.text "SYSTEM" : XmlRule).Rejects
        (Text.utf8 "PUBLIC" ++ (gap.bytes ++ (q.enclose x ++ rest))) :=
      .literal_apart (by decide) _
    exact absurd (apart _ _ faces) (Derives.effect_iff.mp isSystem).not_fails

/-- An identifier with a spoilt public-id literal is not valid and shows no such literal. -/
theorem ExternalId.derives_spoilt (gap : Space) (closed : q.byte ∉ x)
    (foreign : ∃ b ∈ x, publicIdChar.contains b = false)
    (text : source.toList = Text.utf8 "PUBLIC" ++ (gap.bytes ++ (q.enclose x ++ rest)))
    (derives : Derives source source.size rule 0 next f) :
    Tree.defects (· == .invalid) f ≠ 0 ∧
      ∀ call ∈ f.flatMap calls, ∀ span single, call ≠ .publicIdLiteral span single := by
  obtain ⟨whole, parts, inner, -, -, -, rfl⟩ := Derives.action_iff.mp derives
  obtain ⟨mid, g, h, opening, body, rfl⟩ := Derives.seq_iff.mp inner
  obtain ⟨span, rfl⟩ := front_spoilt gap closed foreign (Faces.start text) opening
  refine ⟨?_, fun call member span' single isPublic => ?_⟩
  · rw [Tree.defects_node, Tree.defects_append, Tree.defects_node]
    simp
  · subst isPublic
    have shown : Call.publicIdLiteral span' single ∈
        (.node .invalid span [] :: h : List (Tree Action)).flatMap partCalls := by
      simpa [calls, Tree.action, Tree.children] using member
    obtain ⟨tree, among, told⟩ := List.mem_flatMap.mp shown
    obtain ⟨r, marked⟩ := publicId_of_partCalls told
    rcases List.mem_cons.mp among with rfl | later
    · cases marked
    -- Behind the skipped literal only a system literal or one more skip is marked.
    · have possible := body.action_mem tree later
      rw [marked] at possible
      revert possible
      cases r <;> decide

end Spoiling

section Contents

variable {source : Source} {pos : Nat} {rest : Bytes}

/-- A call shows what is quoted where the literal stands. -/
theorem LiteralText.call_literal {s : Quote → CharSet} (l : LiteralText s)
    (make : Span → Bool → Call) (faces : Faces source.toList pos (l.print ++ rest))
    (shows : ∀ span single, (make span single).literal? = some (span.bytes, single)) :
    (l.call source make pos).literal? = some l.quoted := by
  rw [print, Quote.enclose, List.append_assoc, List.append_assoc] at faces
  have shown : (Span.ofText source (pos + 1) l.content.bytes).bytes = l.content.bytes :=
    ofText_bytes faces.step
  rw [call, shows, shown]
  rfl

/-- The calls for an identifier show what is quoted in it. -/
theorem ExternalIdText.calls_contents (d : ExternalIdText) (text : source.toList = d.print) :
    (d.calls source 0).filterMap Call.literal? = d.contents := by
  have faces : Faces source.toList 0 (d.front ++ (d.literal.print ++ [])) :=
    ⟨Nat.zero_le _, by rw [List.drop_zero, text, print, List.append_nil]⟩
  have last := d.literal.call_literal .systemLiteral faces.step fun _ _ => rfl
  rw [calls, List.filterMap_append, List.filterMap_cons_some last]
  cases d with
  | system gap id => rfl
  | publicId gap id gap' system =>
    have front : Faces source.toList 0 ((Text.utf8 "PUBLIC" ++ gap.bytes) ++
        (id.print ++ (gap'.bytes ++ system.print))) := by
      simpa [ExternalIdText.front, literal] using faces
    have first := id.call_literal .publicIdLiteral front.step fun _ _ => rfl
    rw [List.length_append, ← Nat.add_assoc] at first
    rw [publicCalls, List.filterMap_cons_some first]
    rfl

/-- The last call says that the whole source is a valid identifier. -/
theorem ExternalIdText.calls_getLast (d : ExternalIdText) (text : source.toList = d.print) :
    (d.calls source 0).getLast? = some (.externalIdDone true (.whole source)) := by
  have whole : Span.ofText source 0 d.print = .whole source := by
    rw [Span.ofText, ← text, Array.length_toList, Nat.zero_add]
    rfl
  rw [calls, whole, List.getLast?_append_cons]
  rfl

end Contents

theorem ExternalIdText.print_ne_nil (d : ExternalIdText) : d.print ≠ [] := by
  cases d <;> exact List.cons_ne_nil _ _

end Xml

/-- The parser of external identifiers finds a source valid as a whole just where it is one as they
are written: `SYSTEM` and a literal, or `PUBLIC` and two, each behind a space. Then nothing is
reported, and a receiver that takes every call is given the contents of the literals, each with the
kind of its quotes, and at last the end over the whole source. Where a foreign byte stands in a
public-id literal, in front of the quote that closes it, nothing valid is found, whatever follows,
and no client that never gives up is given a public-id literal. -/
theorem parse_reads_externalId (p : Xml.Parser) (source : Source) (client : Xml.Client σ)
    (world : σ) (idle : p.driver.busy = false) (budget : 0 < p.driver.budget)
    (calm : client.Calm) :
    let run := p.parse .externalId source client.logged { world }
    p.parse .externalId source client world = ⟨run.parser, run.world.world, run.outcome⟩ ∧
    (run.outcome = .ok .allValid ↔ ∃ d : Xml.ExternalIdText, source.toList = d.print) ∧
    (∀ d : Xml.ExternalIdText, source.toList = d.print →
      run.parser.driver.lastReport.errors = 0 ∧ run.parser.valid .externalId = true ∧
      run.world.messages = [] ∧ Delivered ((d.calls source 0).map .call) run.world.calls ∧
      (d.calls source 0).filterMap Xml.Call.literal? = d.contents ∧
      (d.calls source 0).getLast? = some (.externalIdDone true (.whole source)) ∧
      (client.Accepting → run.world.calls.map (·.given) = d.calls source 0)) ∧
    ∀ (gap : Xml.Space) (q : Xml.Quote) (x rest : Bytes),
      source.toList = Text.utf8 "PUBLIC" ++ (gap.bytes ++ (q.enclose x ++ rest)) →
      q.byte ∉ x → (∃ b ∈ x, Xml.publicIdChar.contains b = false) →
      (∀ outcome, run.outcome = .ok outcome → outcome.isGood = false) ∧
      ∀ e ∈ run.world.calls, ∀ span single, e.given ≠ .publicIdLiteral span single := by
  intro run
  have told (d : Xml.ExternalIdText) := d.tells []
  refine ⟨p.parse_logged .externalId source client world,
    p.parse_allValid_iff .externalId source world idle budget calm Xml.ExternalId.spells told
      Xml.ExternalIdText.print_ne_nil, fun d text => ?_, fun gap q x rest text closed foreign => ?_⟩
  · have split : source.toList = d.print ++ [] := text.trans (List.append_nil _).symm
    obtain ⟨-, reported, valid, silent, delivered, given⟩ :=
      p.parse_written .externalId source world idle budget calm (told d) d.print_ne_nil split
    refine ⟨reported, valid, silent, delivered, d.calls_contents text, d.calls_getLast text,
      fun accepting => ?_⟩
    rw [given accepting, List.flatMap_map]
    exact List.flatMap_singleton' _
  · constructor
    · intro outcome returned
      by_contra good
      obtain ⟨next, f, derives, clean, -⟩ := p.clean_of_isGood .externalId source _ idle
        client.logged returned (by simpa using good)
      exact (Xml.ExternalId.derives_spoilt gap closed foreign text derives).1 clean
    · intro e member span single isPublic
      obtain ⟨-, -, -, -, -, -, -, forest, derived, -, delivered⟩ :=
        p.unswayed .externalId source world calm
      have stream : UpToRefusal (forest.flatMap Xml.ExternalId.calls) run.world.calls :=
        Delivered.upToRefusal (by rw [List.map_flatMap]; exact delivered)
      have told := stream.given_mem member
      rcases derived with rfl | ⟨next, derives⟩
      · cases told
      · exact (Xml.ExternalId.derives_spoilt gap closed foreign text derives).2 _ told span single
          isPublic

/-- A literal that holds the quotes of the other kind, and one that a brace spoils. -/
theorem parse_reads_externalId_quotes :
    let space : Xml.Space := ⟨⟨[0x20], List.forall_mem_singleton.mpr rfl⟩, by decide⟩
    let d : Xml.ExternalIdText := .publicId space
      ⟨.double, ⟨Text.utf8 "it's", List.all_eq_true.mp rfl⟩⟩ space
      ⟨.single, ⟨Text.utf8 "\"<\"", List.all_eq_true.mp rfl⟩⟩
    let source : Source := (Text.utf8 "PUBLIC \"it's\" '\"<\"'").toArray
    let spoilt : Source := (Text.utf8 "PUBLIC '\x7b' ''").toArray
    let parse (source : Source) :=
      ({} : Xml.Parser).parse .externalId source Xml.Client.deaf.logged { world := () }
    ({} : Xml.Parser).driver.busy = false ∧ 0 < ({} : Xml.Parser).driver.budget ∧
    Xml.Client.deaf.Calm ∧ Xml.Client.deaf.Accepting ∧ source.toList = d.print ∧
    (parse source).outcome = .ok .allValid ∧
    (parse source).world.calls.map (·.given) =
      [.publicIdLiteral (.clamp source 8 12) false, .systemLiteral (.clamp source 15 18) true,
        .externalIdDone true (.whole source)] ∧
    spoilt.toList = Text.utf8 "PUBLIC" ++
      (space.bytes ++ (Xml.Quote.single.enclose [0x7B] ++ Text.utf8 " ''")) ∧
    Xml.Quote.single.byte ∉ ([0x7B] : Bytes) ∧
    (∃ b ∈ ([0x7B] : Bytes), Xml.publicIdChar.contains b = false) ∧
    (∀ outcome, (parse spoilt).outcome = .ok outcome → outcome.isGood = false) ∧
    ∀ e ∈ (parse spoilt).world.calls, ∀ span single, e.given ≠ .publicIdLiteral span single := by
  intro space d source spoilt parse
  have calm : Xml.Client.deaf.Calm := Xml.Parser.deaf_calm
  have accepting : Xml.Client.deaf.Accepting := fun _ _ _ => rfl
  have text : source.toList = d.print := rfl
  have text' : spoilt.toList = Text.utf8 "PUBLIC" ++
    (space.bytes ++ (Xml.Quote.single.enclose [0x7B] ++ Text.utf8 " ''")) := rfl
  have closed : Xml.Quote.single.byte ∉ ([0x7B] : Bytes) := by decide
  have foreign : ∃ b ∈ ([0x7B] : Bytes), Xml.publicIdChar.contains b = false :=
    ⟨0x7B, by decide, by decide +kernel⟩
  obtain ⟨-, valid, told, -⟩ :=
    parse_reads_externalId {} source .deaf () rfl (by decide) calm
  obtain ⟨-, -, -, -, -, -, given⟩ := told d text
  obtain ⟨-, -, -, skipped⟩ := parse_reads_externalId {} spoilt .deaf () rfl (by decide) calm
  obtain ⟨never, silent⟩ := skipped space .single [0x7B] _ text' closed foreign
  exact ⟨rfl, by decide, calm, accepting, text, valid.mpr ⟨d, text⟩,
    (given accepting).trans rfl, text', closed, foreign, never, silent⟩

end Backtrack
