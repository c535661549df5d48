import Backtrack.Toml.Reader
import Backtrack.Proofs.TomlTexts

/-! Documents of pairs, one in a line, each a key, an equals sign between blanks, and a value. Such a
document is read as its pairs in their order, whatever forms their texts have. -/
namespace Backtrack.Toml

section

variable {c : Char} {rest : List Char}

theorem isBare_other (bare : isBare c = true) :
    punctuation? c = none ∧ c ≠ '#' ∧ c ≠ '\r' ∧ c ≠ '"' ∧ c ≠ '\'' := by
  simpa [isBare, and_assoc] using bare

theorem isBare_of_isBareKey (key : isBareKey c = true) : isBare c = true := by
  unfold isBare punctuation?
  split
  case h_11 =>
    have other : c ≠ '#' ∧ c ≠ '\r' ∧ c ≠ '"' ∧ c ≠ '\'' := by
      refine ⟨?_, ?_, ?_, ?_⟩ <;> rintro rfl <;> exact absurd key (by decide)
    simp [other]
  all_goals exact absurd key (by decide)

theorem tokens?_punctuation {token : Token} (punctuation : punctuation? c = some token) :
    tokens? (c :: rest) = (tokens? rest).map (token :: ·) := by
  rw [tokens?]
  · rw [punctuation]
  · rintro _ rfl -
    cases punctuation
  · rintro rfl
    cases punctuation

/-- A word ends where no bare character follows. -/
theorem tokens?_bare {word : List Char} (filled : word ≠ []) (bare : ∀ c ∈ word, isBare c = true)
    (ends : ∀ c ∈ rest.head?, isBare c = false) :
    tokens? (word ++ rest) = (tokens? rest).map (.bare (String.ofList word) :: ·) := by
  cases word with
  | nil => exact absurd rfl filled
  | cons c word =>
    obtain ⟨first, others⟩ := List.forall_mem_cons.mp bare
    obtain ⟨noPunctuation, noComment, noReturn, -⟩ := isBare_other first
    have more : (word ++ rest).takeWhile isBare = word := by
      rw [List.takeWhile_append_of_pos others]
      cases rest with
      | nil => simp
      | cons d rest => simp [ends d rfl]
    rw [List.cons_append, tokens?]
    · rw [noPunctuation]
      simp [first, more]
    all_goals simp_all

theorem tokens?_quoted {cs : List Char} {text : String} {long : Bool}
    (quoted : quotedText? cs = some ((text, long), rest)) :
    tokens? cs = (tokens? rest).map (.quoted text long :: ·) := by
  cases cs with
  | nil => simp [quotedText?] at quoted
  | cons c cs =>
    have mark : c = '"' ∨ c = '\'' := by
      unfold quotedText? at quoted
      split at quoted <;> simp_all
    have bare : punctuation? c = none ∧ isBare c = false ∧ c ≠ '\r' ∧ c ≠ '#' := by
      obtain rfl | rfl := mark <;> decide
    rw [tokens?]
    · simp only [bare.1, bare.2.1, Bool.false_eq_true, if_false]
      split
      next none => rw [quoted] at none; cases none
      next found =>
        rw [quoted] at found
        cases found
        rfl
    all_goals simp_all

end

/-- A value and what is written for it. -/
inductive Written : Value → List Char → Prop where
  | text {cs long l} : Literal cs long l → Written (.text (String.ofList cs)) l
  | bare {v word} : word ≠ [] → (∀ c ∈ word, isBare c = true) →
      scalar? (String.ofList word) = some v → Written v word

/-- The token of a value. -/
theorem Written.read {v : Value} {l : List Char} (written : Written v l) :
    ∃ token, (∀ rest, tokens? (l ++ '\n' :: rest) = (tokens? rest).map (token :: .newline :: ·)) ∧
      ∀ rest, value? maxNesting (.blank ' ' :: token :: .newline :: rest) =
        some (v, .newline :: rest) := by
  have newline (rest : List Char) : tokens? ('\n' :: rest) = (tokens? rest).map (.newline :: ·) :=
    tokens?_punctuation rfl
  cases written with
  | @text cs long l literal =>
    refine ⟨.quoted (String.ofList cs) long, fun rest => ?_, fun rest => ?_⟩
    · have unmarked : Unmarked ('\n' :: rest) := by
        rintro c ⟨⟩
        decide
      rw [tokens?_quoted (literal.read unmarked), newline, Option.map_map]
      rfl
    · rfl
  | bare filled bare value =>
    refine ⟨.bare (String.ofList l), fun rest => ?_, fun rest => ?_⟩
    · have ends : ∀ c ∈ ('\n' :: rest).head?, isBare c = false := by
        rintro c ⟨⟩
        decide
      rw [tokens?_bare filled bare ends, newline, Option.map_map]
      rfl
    · change bareValue? (.bare (String.ofList l) :: .newline :: rest) = _
      simp [bareValue?, bareText, value]

/-- A document of pairs. -/
inductive Spelled : Entries → List Char → Prop where
  | nil : Spelled [] []
  | cons {key : String} {v l entries cs} : key.toList ≠ [] → (∀ c ∈ key.toList, isBareKey c = true) →
      Written v l → Spelled entries cs →
      Spelled ((key, v) :: entries) (key.toList ++ ' ' :: '=' :: ' ' :: (l ++ '\n' :: cs))

/-- The tokens of a pair, up to the end of its line. -/
def pairTokens (key : String) (value : Token) (rest : List Token) : List Token :=
  .bare key :: .blank ' ' :: .equals :: .blank ' ' :: value :: .newline :: rest

section

variable {key : String} (bareKey : ∀ c ∈ key.toList, isBareKey c = true)

include bareKey

theorem key?_bare (rest : List Token) :
    key? (.bare key :: .blank ' ' :: .equals :: rest) = some (⟨[], key⟩, .equals :: rest) := by
  have named : (Token.bare key).key? = some key := if_pos (List.all_eq_true.mpr bareKey)
  change (((Token.bare key).key?.map ([·])).bind fun names => names.getLast?.bind fun name =>
    some ((⟨names.dropLast, name⟩ : Key), Token.equals :: rest)) = _
  rw [named]
  rfl

/-- The tokens of a pair make a line. -/
theorem lines?_pair {token : Token} {v : Value} {tokens : List Token}
    (value : value? maxNesting (.blank ' ' :: token :: .newline :: tokens) =
      some (v, .newline :: tokens)) (fuel : Nat) :
    lines? (fuel + 1) (pairTokens key token tokens) =
      (lines? fuel tokens).map (.pair ⟨[], key⟩ v :: ·) := by
  have line : line? (pairTokens key token tokens) =
      some (.pair ⟨[], key⟩ v, .newline :: tokens) := by
    simp [pairTokens, line?, pair?, key?_bare bareKey, value]
  have start : (pairTokens key token tokens).dropWhile Token.isSpace =
      pairTokens key token tokens := rfl
  have ended : (Token.newline :: tokens).dropWhile Token.isBlank = .newline :: tokens := rfl
  unfold pairTokens at line start ⊢
  simp only [lines?, start, line, ended, Option.bind_eq_bind, Option.bind_some]
  cases lines? fuel tokens <;> rfl

end

/-- The lines of a document. -/
theorem Spelled.lines {entries : Entries} {cs : List Char} (spelled : Spelled entries cs) :
    ∃ tokens, tokens? cs = some tokens ∧ entries.length ≤ tokens.length ∧
      ∀ fuel, entries.length < fuel →
        lines? fuel tokens = some (entries.map fun (key, v) => .pair ⟨[], key⟩ v) := by
  induction spelled with
  | nil =>
    refine ⟨[], by rw [tokens?], Nat.le_refl _, fun fuel some => ?_⟩
    cases fuel with
    | zero => omega
    | succ fuel => rfl
  | @cons key v l entries cs filled bareKey written rest ih =>
    obtain ⟨tokens, read, fewer, lines⟩ := ih
    obtain ⟨token, ofValue, value⟩ := written.read
    have bare : ∀ c ∈ key.toList, isBare c = true := fun c member =>
      isBare_of_isBareKey (bareKey c member)
    have ends (more : List Char) : ∀ c ∈ (' ' :: more).head?, isBare c = false := by
      rintro c ⟨⟩
      decide
    refine ⟨pairTokens key token tokens, ?_, ?_, ?_⟩
    · have blank : punctuation? ' ' = some (.blank ' ') := rfl
      have equals : punctuation? '=' = some .equals := rfl
      rw [tokens?_bare filled bare (ends _), tokens?_punctuation blank, tokens?_punctuation equals,
        tokens?_punctuation blank, ofValue, read, String.ofList_toList]
      rfl
    · simp only [pairTokens, List.length_cons]
      omega
    · intro fuel enough
      cases fuel with
      | zero => omega
      | succ fuel => rw [lines?_pair bareKey (value tokens), lines fuel (by simpa using enough)]; rfl

/-- Pairs under new names are added in their order. -/
theorem add_pairs (entries more : Entries) (apart : ((entries ++ more).map (·.1)).Nodup) :
    (more.map fun (key, v) => Line.pair ⟨[], key⟩ v).foldlM Document.add ⟨entries, []⟩ =
      some ⟨entries ++ more, []⟩ := by
  induction more generalizing entries with
  | nil => simp
  | cons entry more ih =>
    obtain ⟨key, v⟩ := entry
    have new : ∀ entry ∈ entries, entry.1 ≠ key := by
      intro entry member same
      rw [List.map_append, List.nodup_append] at apart
      exact apart.2.2 _ (List.mem_map_of_mem member) _ List.mem_cons_self same
    have added : Document.add ⟨entries, []⟩ (.pair ⟨[], key⟩ v) =
        some ⟨entries ++ [(key, v)], []⟩ := by
      simp [Document.add, change, addPair, Assoc.lookup_new new, Assoc.set_new new v]
    rw [List.map_cons, List.foldlM_cons, added]
    have rest := ih (entries ++ [(key, v)]) (by simpa using apart)
    simpa using rest

/-- Lines of pairs, one behind the other, make a document. -/
theorem spelled_join (lines : List (String × Value × String))
    (written : ∀ line ∈ lines, line.1.toList ≠ [] ∧ line.1.toList.all isBareKey = true ∧
      Written line.2.1 line.2.2.toList) :
    Spelled (lines.map fun (key, v, _) => (key, v))
      (String.join (lines.map fun (key, _, literal) => pairLine key literal)).toList := by
  induction lines with
  | nil => exact .nil
  | cons line lines ih =>
    obtain ⟨⟨filled, bareKey, first⟩, others⟩ := List.forall_mem_cons.mp written
    have spelled := Spelled.cons filled (List.all_eq_true.mp bareKey) first (ih others)
    simpa [pairLine, String.join_cons] using spelled

theorem Spelled.no_byteOrderMark {entries : Entries} {cs : List Char}
    (spelled : Spelled entries cs) : cs.head? ≠ some '\uFEFF' := by
  intro marked
  cases spelled with
  | nil => cases marked
  | @cons key _ _ _ _ filled bareKey =>
    cases shape : key.toList with
    | nil => exact filled shape
    | cons c more =>
      rw [shape] at marked bareKey
      cases marked
      exact absurd (bareKey _ List.mem_cons_self) (by decide)

/-- A document is read as its pairs. -/
theorem Spelled.read {entries : Entries} {text : String} (spelled : Spelled entries text.toList)
    (apart : (entries.map (·.1)).Nodup) : read? text = some entries := by
  obtain ⟨tokens, read, fewer, lines⟩ := spelled.lines
  have added := add_pairs [] entries apart
  unfold read?
  split
  next rest same => exact absurd (congrArg List.head? same) spelled.no_byteOrderMark
  · simp only [read, Option.bind_eq_bind, Option.bind_some]
    rw [lines (tokens.length + 1) (by omega), Option.bind_some, added]
    rfl

/-! Truth values and numbers. -/

theorem boolean_written (b : Bool) : Written (.boolean b) (toString b).toList := by
  cases b
  · exact .bare (by decide) (List.all_eq_true.mp rfl) rfl
  · exact .bare (by decide) (List.all_eq_true.mp rfl) rfl

theorem digit?_digitChar {d : Nat} (small : d < 10) : digit? 10 d.digitChar = some d := by
  have all : ∀ d < 10, digit? 10 d.digitChar = some d := by decide
  exact all d small

theorem natural?_toDigits (n : Nat) : natural? 10 (Nat.toDigits 10 n) = some n := by
  have value : (Nat.toDigits 10 n).foldlM (fun n c => (digit? 10 c).map (n * 10 + ·)) 0 = some n := by
    induction n using Nat.strongRecOn with
    | ind n ih =>
      by_cases small : n < 10
      · rw [Nat.toDigits_of_lt_base small]
        simp [digit?_digitChar small]
      · rw [Nat.toDigits_of_base_le (by decide) (by omega), List.foldlM_append,
          ih (n / 10) (by omega)]
        simp [digit?_digitChar (Nat.mod_lt n (by decide))]
        omega
  rw [natural?, if_neg (by simp [Nat.toDigits_ne_nil]), value]

/-- A number begins with a zero only if that is all of it. -/
theorem toDigits_begins (n : Nat) (more : List Char) (filled : more ≠ []) :
    Nat.toDigits 10 n ≠ '0' :: more := by
  have positive {d : Nat} (least : 0 < d) (small : d < 10) : d.digitChar ≠ '0' := by
    have all : ∀ d < 10, 0 < d → d.digitChar ≠ '0' := by decide
    exact all d small least
  induction n using Nat.strongRecOn generalizing more with
  | ind n ih =>
    by_cases small : n < 10
    · rw [Nat.toDigits_of_lt_base small]
      intro same
      exact filled (List.cons.inj same).2.symm
    · rw [Nat.toDigits_of_base_le (by decide) (by omega)]
      cases shape : Nat.toDigits 10 (n / 10) with
      | nil => exact absurd shape Nat.toDigits_ne_nil
      | cons c others =>
        intro same
        obtain rfl : c = '0' := (List.cons.inj same).1
        cases others with
        | nil =>
          have zero : n / 10 = 0 := by
            have := natural?_toDigits (n / 10)
            rw [shape] at this
            exact Option.some.inj (this.symm.trans (by decide))
          omega
        | cons d others => exact ih (n / 10) (by omega) (d :: others) (List.cons_ne_nil _ _) shape

theorem pieces_whole {separator : Char} {cs : List Char} (whole : separator ∉ cs) :
    Text.pieces separator cs = [cs] := by
  induction cs with
  | nil => rfl
  | cons c cs ih =>
    rw [List.mem_cons, not_or] at whole
    rw [Text.pieces, ih whole.2]
    exact if_neg (Ne.symm whole.1)

theorem integer?_toDigits {n : Nat} (small : n < 0x8000000000000000) :
    integer? (Nat.toDigits 10 n) = some (n : Int) := by
  have digits : ∀ c ∈ Nat.toDigits 10 n, c.isDigit = true := fun c member =>
    Nat.isDigit_of_mem_toDigits (by decide) (by decide) member
  have noDigit {c : Char} (other : c.isDigit = false) : c ∉ Nat.toDigits 10 n := fun member => by
    rw [digits c member] at other
    cases other
  have groups : groups? 10 (Nat.toDigits 10 n) = some (Nat.toDigits 10 n) := by
    simp [groups?, pieces_whole (noDigit (c := '_') rfl), natural?_toDigits]
  have decimal : decimal? (Nat.toDigits 10 n) = some (Nat.toDigits 10 n) := by
    rw [decimal?, groups]
    split
    next shape => exact absurd (Option.some.inj shape) (toDigits_begins n _ (List.cons_ne_nil _ _))
    · rfl
  have sign : signed (Nat.toDigits 10 n) = (false, Nat.toDigits 10 n) := by
    unfold signed
    split
    next shape => exact absurd (by simp [shape]) (noDigit (c := '-') rfl)
    next shape => exact absurd (by simp [shape]) (noDigit (c := '+') rfl)
    · rfl
  unfold integer?
  split
  next shape => exact absurd (by simp [shape]) (noDigit (c := 'x') rfl)
  next shape => exact absurd (by simp [shape]) (noDigit (c := 'o') rfl)
  next shape => exact absurd (by simp [shape]) (noDigit (c := 'b') rfl)
  · have value : (decimal? (Nat.toDigits 10 n) >>= natural? 10) = some n := by
      rw [decimal]
      exact natural?_toDigits n
    have bounds : -0x8000000000000000 ≤ (n : Int) ∧ (n : Int) < 0x8000000000000000 := by omega
    have magnitude : (Option.map (fun m : Int => if false = true then -m else m)
        (do let m ← some n; pure (m : Int))) = some (n : Int) := rfl
    rw [sign]
    dsimp only
    rw [value, magnitude, Option.bind_eq_bind, Option.bind_some, if_pos bounds]

theorem isBare_digit {c : Char} (digit : c.isDigit = true) : isBare c = true := by
  apply isBare_of_isBareKey
  simp [isBareKey, Char.isAlphanum, digit]

theorem number_written {n : Nat} (small : n < 0x8000000000000000) :
    Written (.integer n) (toString n).toList := by
  have shown : (toString n).toList = Nat.toDigits 10 n := Nat.toList_repr
  have digits : ∀ c ∈ Nat.toDigits 10 n, c.isDigit = true := fun c member =>
    Nat.isDigit_of_mem_toDigits (by decide) (by decide) member
  have noWord {word : String} (other : ∃ c ∈ word.toList, c.isDigit = false) :
      String.ofList (Nat.toDigits 10 n) ≠ word := by
    rintro rfl
    obtain ⟨c, member, noDigit⟩ := other
    rw [String.toList_ofList] at member
    rw [digits c member] at noDigit
    cases noDigit
  rw [shown]
  refine .bare Nat.toDigits_ne_nil (fun c member => isBare_digit (digits c member)) ?_
  rw [scalar?, if_neg (noWord ⟨'t', by decide⟩), if_neg (noWord ⟨'f', by decide⟩),
    String.toList_ofList, integer?_toDigits small]

end Backtrack.Toml
