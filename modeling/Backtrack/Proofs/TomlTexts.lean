import Backtrack.Toml.Token
import Backtrack.Toml.Writer

/-! The forms of a text in TOML. A text stands between double or single quotes, one or three of them
on either side; double quotes allow escapes and folded lines. Every form is read back as the text it
stands for, and what is written is one of the forms. -/
namespace Backtrack.Toml

inductive Quotation where
  | double
  | single
  deriving DecidableEq

namespace Quotation

def mark : Quotation → Char
  | double => '"'
  | single => '\''

/-- Reads a text after its opening quotes. -/
def read (q : Quotation) (long : Bool) (cs : List Char) : Quoted :=
  match q with
  | double => doubleQuoted long false cs
  | single => singleQuoted long cs

/-- The character stands for itself. -/
structure Keeps (q : Quotation) (long : Bool) (c : Char) : Prop where
  notMark : c ≠ q.mark
  notEscape : q = double → c ≠ '\\'
  allowed : (isAllowed c || (long && c == '\n')) = true

end Quotation

/-- What stands for a character from a backslash on. -/
inductive Escape (c : Char) : List Char → Prop where
  | short {d} : escaped? d = some c → Escape c ['\\', d]
  | four {a b d e} : codePoint? [a, b, d, e] = some c → Escape c ['\\', 'u', a, b, d, e]
  | eight {a b d e f g h i} : codePoint? [a, b, d, e, f, g, h, i] = some c →
      Escape c ['\\', 'U', a, b, d, e, f, g, h, i]

/-- Blanks and line breaks. -/
inductive Gap : List Char → Prop where
  | nil : Gap []
  | blank {c gap} : isBlank c = true → Gap gap → Gap (c :: gap)
  | lineFeed {gap} : Gap gap → Gap ('\n' :: gap)
  | lineEnd {gap} : Gap gap → Gap ('\r' :: '\n' :: gap)

/-- A gap does not go on here. -/
def Visible (cs : List Char) : Prop := ∀ c ∈ cs.head?, isBlank c = false ∧ c ≠ '\n' ∧ c ≠ '\r'

/-- A text and what is written for it between quotes, when `run` quotes came right before. -/
inductive Spells (q : Quotation) (long : Bool) : (run : Nat) → List Char → List Char → Prop where
  | nil {run} : Spells q long run [] []
  | char {run c cs s} : q.Keeps long c → Spells q long 0 cs s → Spells q long run (c :: cs) (c :: s)
  | mark {run cs s} : long = true → run < 2 → Spells q long (run + 1) cs s →
      Spells q long run (q.mark :: cs) (q.mark :: s)
  | lineEnd {run cs s} : long = true → Spells q long 0 cs s →
      Spells q long run ('\n' :: cs) ('\r' :: '\n' :: s)
  | escape {run c e cs s} : q = .double → Escape c e → Spells q long 0 cs s →
      Spells q long run (c :: cs) (e ++ s)
  | fold {run gap cs s} : q = .double → long = true → Gap gap → endsLine gap = true → Visible s →
      Spells q long 0 cs s → Spells q long run cs ('\\' :: (gap ++ s))

section

variable {long : Bool} {c : Char} {rest : List Char}

theorem before_some (c : Char) (cs rest : List Char) :
    before (some c) (some (cs, rest)) = some (c :: cs, rest) := rfl

theorem not_carriageReturn (allowed : (isAllowed c || (long && c == '\n')) = true) : c ≠ '\r' := by
  rintro rfl
  cases long <;> exact absurd allowed (by decide)

namespace Quotation

theorem Keeps.read {q : Quotation} (keeps : q.Keeps long c) :
    q.read long (c :: rest) = before (some c) (q.read long rest) := by
  have notReturn := not_carriageReturn keeps.allowed
  cases q with
  | double =>
    have notMark : c ≠ '"' := keeps.notMark
    have notEscape := keeps.notEscape rfl
    change doubleQuoted long false (c :: rest) = _
    rw [doubleQuoted]
    · simp only [Bool.false_and, Bool.false_eq_true, if_false, keeps.allowed, if_true]
      rfl
    all_goals simp_all
  | single =>
    have notMark : c ≠ '\'' := keeps.notMark
    change singleQuoted long (c :: rest) = _
    rw [singleQuoted]
    · simp only [keeps.allowed, if_true]
      rfl
    all_goals simp_all

theorem read_lineEnd (q : Quotation) :
    q.read true ('\r' :: '\n' :: rest) = before (some '\n') (q.read true rest) := by
  cases q <;> rfl

theorem read_mark_short (q : Quotation) : q.read false (q.mark :: rest) = some ([], rest) := by
  cases q <;> simp [read, mark, doubleQuoted, singleQuoted]

theorem read_mark_long (q : Quotation) :
    q.read true (q.mark :: rest) =
      (closing? q.mark (q.mark :: rest)).or (before (some q.mark) (q.read true rest)) := by
  cases q <;> simp [read, mark, doubleQuoted, singleQuoted]

end Quotation

theorem escaped?_visible {d : Char} (escaped : escaped? d = some c) :
    d ≠ 'x' ∧ d ≠ 'u' ∧ d ≠ 'U' ∧ isBlank d = false ∧ d ≠ '\n' ∧ d ≠ '\r' := by
  unfold escaped? at escaped
  split at escaped
  all_goals first | decide | cases escaped

theorem endsLine_visible {d : Char} (visible : isBlank d = false ∧ d ≠ '\n' ∧ d ≠ '\r') :
    endsLine (d :: rest) = false := by
  unfold endsLine
  rw [List.dropWhile_cons_of_neg (by simp [visible.1])]
  split <;> simp_all

theorem Escape.read {e : List Char} (escape : Escape c e) :
    doubleQuoted long false (e ++ rest) = before (some c) (doubleQuoted long false rest) := by
  cases escape with
  | @short d escaped =>
    obtain ⟨notByte, notFour, notEight, visible⟩ := escaped?_visible escaped
    change doubleQuoted long false ('\\' :: d :: rest) = _
    rw [doubleQuoted]
    · rw [endsLine_visible visible, Bool.and_false, if_neg Bool.false_ne_true, escaped]
    all_goals simp_all
  | four value =>
    simp only [List.cons_append, List.nil_append]
    rw [doubleQuoted, value]
  | eight value =>
    simp only [List.cons_append, List.nil_append]
    rw [doubleQuoted, value]

/-- What is skipped in a folded line. -/
theorem Gap.read {gap : List Char} (h : Gap gap) :
    doubleQuoted true true (gap ++ rest) = doubleQuoted true true rest := by
  induction h with
  | nil => rfl
  | @blank c gap blank _ ih =>
    have other : c ≠ '\\' ∧ c ≠ '"' ∧ c ≠ '\r' := by
      refine ⟨?_, ?_, ?_⟩ <;> rintro rfl <;> exact absurd blank (by decide)
    rw [List.cons_append, doubleQuoted]
    · simpa [blank] using ih
    all_goals simp_all
  | lineFeed _ ih =>
    rw [List.cons_append, doubleQuoted]
    · simpa using ih
    all_goals simp
  | lineEnd _ ih =>
    rw [List.cons_append, List.cons_append, doubleQuoted]
    exact ih

theorem Visible.read {cs : List Char} (visible : Visible cs) :
    doubleQuoted true true cs = doubleQuoted true false cs := by
  cases cs with
  | nil => rw [doubleQuoted, doubleQuoted]
  | cons c cs =>
    obtain ⟨notBlank, notFeed, notReturn⟩ := visible c rfl
    rw [doubleQuoted.eq_def, doubleQuoted.eq_def true false]
    split <;> simp_all

theorem endsLine_append {cs : List Char} (ends : endsLine cs = true) (more : List Char) :
    endsLine (cs ++ more) = true := by
  unfold endsLine at ends ⊢
  split at ends
  next shape => rw [List.dropWhile_append, shape]; simp
  next shape => rw [List.dropWhile_append, shape]; simp
  · cases ends

/-- A gap after a backslash, up to what shows. -/
theorem Gap.read_fold {gap : List Char} (h : Gap gap) (ends : endsLine gap = true)
    {cs : List Char} (visible : Visible cs) :
    doubleQuoted true false ('\\' :: (gap ++ cs)) = doubleQuoted true false cs := by
  have whole := endsLine_append ends cs
  have skip {d : Char} {more : List Char} (other : d ≠ 'x' ∧ d ≠ 'u' ∧ d ≠ 'U')
      (ends : endsLine (d :: more) = true) :
      doubleQuoted true false ('\\' :: d :: more) = doubleQuoted true true more := by
    rw [doubleQuoted]
    · simp [ends]
    all_goals simp_all
  cases h with
  | nil => cases ends
  | @blank c gap blank more =>
    have other : c ≠ 'x' ∧ c ≠ 'u' ∧ c ≠ 'U' := by
      refine ⟨?_, ?_, ?_⟩ <;> rintro rfl <;> exact absurd blank (by decide)
    rw [List.cons_append] at whole ⊢
    rw [skip other whole, more.read, visible.read]
  | lineFeed more =>
    rw [List.cons_append] at whole ⊢
    rw [skip (by decide) whole, more.read, visible.read]
  | lineEnd more =>
    rw [List.cons_append] at whole ⊢
    rw [skip (by decide) whole, more.lineFeed.read, visible.read]

end

section

variable {q : Quotation} {long : Bool} {run : Nat} {cs s rest : List Char}

/-- Between single quotation marks the first one of the same kind ends the text. -/
theorem Spells.read_short (spells : Spells q false run cs s) :
    q.read false (s ++ q.mark :: rest) = some (cs, rest) := by
  induction spells with
  | nil => exact q.read_mark_short
  | char keeps _ ih => rw [List.cons_append, keeps.read, ih, before_some]
  | mark long => cases long
  | lineEnd long => cases long
  | escape double escape _ ih =>
    subst double
    rw [List.append_assoc]
    change doubleQuoted false false _ = _
    rw [escape.read]
    exact congrArg (before _) ih
  | fold _ long => cases long

theorem Escape.starts {c : Char} {e : List Char} (escape : Escape c e) : e.head? = some '\\' := by
  cases escape <;> rfl

/-- What is written for a text is nothing, or begins with a mark of the text itself, or with
something else. -/
theorem Spells.starts (spells : Spells q long run cs s) :
    (cs = [] ∧ s = []) ∨
    (∃ cs' s', long = true ∧ run < 2 ∧ Spells q long (run + 1) cs' s' ∧ cs = q.mark :: cs' ∧
      s = q.mark :: s') ∨
    ∃ c s', c ≠ q.mark ∧ s = c :: s' := by
  cases spells with
  | nil => exact .inl ⟨rfl, rfl⟩
  | char keeps => exact .inr (.inr ⟨_, _, keeps.notMark, rfl⟩)
  | mark three few marked => exact .inr (.inl ⟨_, _, three, few, marked, rfl, rfl⟩)
  | lineEnd => exact .inr (.inr ⟨_, _, by cases q <;> decide, rfl⟩)
  | @escape _ c e _ _ double escape =>
    subst double
    cases e with
    | nil => cases escape
    | cons d e =>
      obtain rfl : d = '\\' := Option.some.inj escape.starts
      exact .inr (.inr ⟨_, _, by decide, rfl⟩)
  | fold double =>
    subst double
    exact .inr (.inr ⟨_, _, by decide, rfl⟩)

theorem closing?_of_ne {q a b c : Char} (other : ¬ (a = q ∧ b = q ∧ c = q)) :
    closing? q (a :: b :: c :: rest) = none := by
  rw [closing?, if_neg other]

theorem closing?_marks {m : Char} (apart : rest.head? ≠ some m) :
    closing? m (m :: m :: m :: rest) = some ([], rest) ∧
    closing? m (m :: m :: m :: m :: rest) = some ([m], rest) ∧
    closing? m (m :: m :: m :: m :: m :: rest) = some ([m, m], rest) := by
  cases rest with
  | nil => simp [closing?]
  | cons c rest =>
    have other : c ≠ m := by simpa using apart
    cases rest <;> simp [closing?, other]

/-- At a mark of the text the three that end it are found if the text goes on with marks alone. -/
theorem Spells.closing (spells : Spells q true (run + 1) cs s) (apart : rest.head? ≠ some q.mark) :
    closing? q.mark (q.mark :: (s ++ q.mark :: q.mark :: q.mark :: rest)) = none ∨
    closing? q.mark (q.mark :: (s ++ q.mark :: q.mark :: q.mark :: rest)) =
      some (q.mark :: cs, rest) := by
  obtain ⟨-, one, two⟩ := closing?_marks apart
  obtain ⟨rfl, rfl⟩ | ⟨cs', s', -, few, further, rfl, rfl⟩ | ⟨c, s', other, rfl⟩ :=
    spells.starts
  · exact .inr one
  · obtain ⟨rfl, rfl⟩ | ⟨_, _, -, more, -⟩ | ⟨c, s', other, rfl⟩ := further.starts
    · exact .inr two
    · omega
    · exact .inl (closing?_of_ne fun same => other same.2.2)
  · left
    cases s' <;> exact closing?_of_ne fun same => other same.2.1

theorem Visible.append {more : List Char} (visible : Visible s) (follows : Visible more) :
    Visible (s ++ more) := by
  cases s with
  | nil => exact follows
  | cons => exact visible

/-- Between three quotation marks on either side three end the text, after up to two of its own. -/
theorem Spells.read_long (spells : Spells q true run cs s) (apart : rest.head? ≠ some q.mark) :
    q.read true (s ++ q.mark :: q.mark :: q.mark :: rest) = some (cs, rest) := by
  induction spells with
  | nil =>
    obtain ⟨closed, -, -⟩ := closing?_marks apart
    rw [List.nil_append, q.read_mark_long, closed, Option.some_or]
  | char keeps _ ih => rw [List.cons_append, keeps.read, ih, before_some]
  | mark _ few marked ih =>
    rw [List.cons_append, q.read_mark_long, ih, before_some]
    obtain open' | closed := marked.closing apart
    · rw [open', Option.none_or]
    · rw [closed, Option.some_or]
  | lineEnd _ _ ih => rw [List.cons_append, List.cons_append, q.read_lineEnd, ih, before_some]
  | escape double escape _ ih =>
    subst double
    rw [List.append_assoc]
    change doubleQuoted true false _ = _
    rw [escape.read]
    exact congrArg (before _) ih
  | fold double _ gap ends visible _ ih =>
    subst double
    rw [List.cons_append, List.append_assoc]
    change doubleQuoted true false _ = _
    have marks (more : List Char) : Visible (Quotation.double.mark :: more) := by
      rintro c ⟨⟩
      decide
    rw [gap.read_fold ends (visible.append (marks _))]
    exact ih

end

/-- A text in one of the forms, and whether it has three marks on either side. A line break right
after three marks does not belong to the text. -/
inductive Literal (cs : List Char) : Bool → List Char → Prop where
  | short {q : Quotation} {s} : Spells q false 0 cs s → Literal cs false (q.mark :: (s ++ [q.mark]))
  | long {q : Quotation} {lineBreak s} :
      (∀ c ∈ s.head?, c ≠ '\n' ∧ c ≠ '\r') ∧ lineBreak = [] ∨
        lineBreak = ['\n'] ∨ lineBreak = ['\r', '\n'] →
      Spells q true 0 cs s →
      Literal cs true (q.mark :: q.mark :: q.mark ::
        (lineBreak ++ (s ++ [q.mark, q.mark, q.mark])))

/-- Marks do not go on here. -/
def Unmarked (cs : List Char) : Prop := ∀ c ∈ cs.head?, c ≠ '"' ∧ c ≠ '\''

theorem Unmarked.apart {cs : List Char} (unmarked : Unmarked cs) (q : Quotation) :
    cs.head? ≠ some q.mark := by
  intro marked
  have := unmarked _ marked
  cases q <;> simp [Quotation.mark] at this

theorem dropLineBreak_of_ne {cs : List Char} (other : ∀ c ∈ cs.head?, c ≠ '\n' ∧ c ≠ '\r') :
    dropLineBreak cs = cs := by
  unfold dropLineBreak
  split <;> simp_all

/-- The form behind one mark that is not the first of three. -/
theorem quotedText?_short {q : Quotation} {cs : List Char}
    (first : ∀ more, cs ≠ q.mark :: q.mark :: more) :
    quotedText? (q.mark :: cs) = quotedText?.pack false (q.read false cs) := by
  cases q with
  | double =>
    change quotedText? ('"' :: cs) = _
    rw [quotedText?]
    · rfl
    · intro more same
      exact first more same
  | single =>
    change quotedText? ('\'' :: cs) = _
    rw [quotedText?]
    · rfl
    · intro more same
      exact first more same

theorem quotedText?_long (q : Quotation) (cs : List Char) :
    quotedText? (q.mark :: q.mark :: q.mark :: cs) =
      quotedText?.pack true (q.read true (dropLineBreak cs)) := by
  cases q <;> rfl

/-- Every form is read as the text it stands for. -/
theorem Literal.read {cs l rest : List Char} {long : Bool} (literal : Literal cs long l)
    (unmarked : Unmarked rest) :
    quotedText? (l ++ rest) = some ((String.ofList cs, long), rest) := by
  cases literal with
  | @short q s spells =>
    have apart := unmarked.apart q
    have first (more : List Char) : s ++ q.mark :: rest ≠ q.mark :: q.mark :: more := by
      intro same
      obtain ⟨-, rfl⟩ | ⟨_, _, three, -⟩ | ⟨c, s', other, rfl⟩ := spells.starts
      · cases same
        exact apart rfl
      · cases three
      · exact other (List.cons.inj same).1
    rw [List.cons_append, List.append_assoc, List.singleton_append, quotedText?_short first,
      spells.read_short]
    rfl
  | @long q lineBreak s start spells =>
    have dropped : dropLineBreak (lineBreak ++ (s ++ q.mark :: q.mark :: q.mark :: rest)) =
        s ++ q.mark :: q.mark :: q.mark :: rest := by
      obtain ⟨other, rfl⟩ | rfl | rfl := start
      · apply dropLineBreak_of_ne
        cases s with
        | nil =>
          rintro c ⟨⟩
          cases q <;> decide
        | cons c s => exact other
      · rfl
      · rfl
    have read := spells.read_long (unmarked.apart q)
    simp only [List.cons_append, List.append_assoc, List.nil_append]
    rw [quotedText?_long, dropped, read]
    rfl

/-! What is written. -/

theorem digit?_hex {d : Nat} (small : d < 16) : digit? 16 d.digitChar.toUpper = some d := by
  have all : ∀ d < 16, digit? 16 d.digitChar.toUpper = some d := by decide
  exact all d small

theorem toList_hex {n : Nat} (small : n < 256) :
    (pad 4 (Text.hex n).toUpper).toList =
      ['0', '0', (n / 16).digitChar.toUpper, (n % 16).digitChar.toUpper] := by
  have upper : (Text.hex n).toUpper.toList = (Nat.toDigits 16 n).map Char.toUpper := by
    simp [Text.hex, String.toUpper]
  have zero : '0' = Nat.digitChar 0 := rfl
  rw [pad, String.toList_append, String.toList_ofList, ← String.length_toList, upper]
  by_cases one : n < 16
  · rw [Nat.toDigits_of_lt_base one, Nat.div_eq_of_lt one, Nat.mod_eq_of_lt one]
    rfl
  · rw [Nat.toDigits_of_base_le (by decide) (by omega), Nat.toDigits_of_lt_base (by omega)]
    rfl

theorem codePoint?_hex {c : Char} (small : c.toNat < 256) :
    codePoint? ['0', '0', (c.toNat / 16).digitChar.toUpper, (c.toNat % 16).digitChar.toUpper] =
      some c := by
  have high := digit?_hex (d := c.toNat / 16) (by omega)
  have low := digit?_hex (d := c.toNat % 16) (by omega)
  have zero : digit? 16 '0' = some 0 := by decide
  have value : natural? 16 ['0', '0', (c.toNat / 16).digitChar.toUpper,
      (c.toNat % 16).digitChar.toUpper] = some c.toNat := by
    simp only [natural?, List.isEmpty_cons, Bool.false_eq_true, if_false, List.foldlM_cons,
      List.foldlM_nil, zero, high, low, Option.map_some, Option.bind_eq_bind, Option.bind_some]
    congr 1
    omega
  have valid : c.toNat.isValidChar := c.valid
  simp only [codePoint?, value, Option.bind_eq_bind, Option.bind_some, if_pos valid,
    Char.ofNat_toNat]

theorem control_small {c : Char} (control : isControl c = true) : c.toNat < 256 := by
  simp only [isControl, isAllowed, Bool.and_eq_true, Bool.not_eq_true', Bool.or_eq_false_iff,
    Bool.and_eq_false_iff, decide_eq_false_iff_not, bne_eq_false_iff_eq] at control
  obtain ⟨⟨-, below | rfl⟩, -⟩ := control
  · have below : ¬ (32 ≤ c.toNat) := below
    omega
  · decide

/-- What is written for a character between one mark on either side. -/
theorem escapeCode_spells (c : Char) :
    Escape c (escapeCode c).toList ∨
      ((escapeCode c).toList = [c] ∧ Quotation.double.Keeps false c) := by
  unfold escapeCode
  split
  · exact .inl (.short rfl)
  · exact .inl (.short rfl)
  · exact .inl (.short rfl)
  · exact .inl (.short rfl)
  · exact .inl (.short rfl)
  · exact .inl (.short rfl)
  · exact .inl (.short rfl)
  · split
    next control =>
      left
      have small : c.toNat < 256 := control_small control
      rw [String.toList_append, toList_hex small]
      exact .four (codePoint?_hex small)
    next noBack _ notFeed _ _ notMark notEscape noControl =>
      right
      refine ⟨by simp, notMark, fun _ => notEscape, ?_⟩
      simp_all [isControl]

theorem escapedText_cons (c : Char) (cs : List Char) :
    (escapedText (c :: cs)).toList = (escapeCode c).toList ++ (escapedText cs).toList := by
  simp [escapedText]

theorem escapedText_spells (cs : List Char) :
    Spells .double false 0 cs (escapedText cs).toList := by
  induction cs with
  | nil => exact .nil
  | cons c cs ih =>
    rw [escapedText_cons]
    obtain escape | ⟨same, keeps⟩ := escapeCode_spells c
    · exact .escape rfl escape ih
    · rw [same]
      exact .char keeps ih

theorem Quotation.Keeps.long {q : Quotation} {c : Char} (keeps : q.Keeps false c) :
    q.Keeps true c where
  notMark := keeps.notMark
  notEscape := keeps.notEscape
  allowed := by
    have := keeps.allowed
    simp_all

/-- Text between three marks, when `run` quotes came right before. -/
theorem escapedLong_spells {run : Nat} (few : run ≤ 2) (cs : List Char) :
    Spells .double true run cs (escapedLong run cs).toList := by
  induction cs generalizing run with
  | nil => exact .nil
  | cons c cs ih =>
    unfold escapedLong
    split
    next shape => cases shape
    next shape =>
      cases shape
      split
      next less =>
        rw [String.toList_append]
        exact .mark rfl less (ih (by omega))
      · rw [String.toList_append]
        exact .escape rfl (.short rfl) (ih (by omega))
    next shape =>
      cases shape
      have keeps : Quotation.double.Keeps true '\n' := ⟨by decide, by decide, rfl⟩
      rw [String.toList_append]
      exact .char keeps (ih (by omega))
    next notMark notFeed shape =>
      cases shape
      rw [String.toList_append]
      obtain escape | ⟨same, keeps⟩ := escapeCode_spells c
      · exact .escape rfl escape (ih (by omega))
      · rw [same]
        exact .char keeps.long (ih (by omega))

theorem le_longestRun (c : Char) (run : Nat) (cs : List Char) : run ≤ longestRun c run cs := by
  fun_induction longestRun c run cs with
  | case1 => exact Nat.le_refl _
  | case2 run _ ih => omega
  | case3 run d rest other ih => exact Nat.le_max_left _ _

/-- Characters that stand for themselves, and marks in short runs. -/
theorem verbatim_spells {q : Quotation} {long : Bool} {run : Nat} {cs : List Char}
    (keeps : ∀ c ∈ cs, c ≠ q.mark → q.Keeps long c)
    (few : longestRun q.mark run cs ≤ if long then 2 else 0) : Spells q long run cs cs := by
  induction cs generalizing run with
  | nil => exact .nil
  | cons c cs ih =>
    obtain ⟨first, others⟩ := List.forall_mem_cons.mp keeps
    rw [longestRun] at few
    split at few
    next same =>
      subst same
      have more := le_longestRun q.mark (run + 1) cs
      cases long with
      | true => exact .mark rfl (by simp at few; omega) (ih others few)
      | false => simp at few; omega
    next other => exact .char (first other) (ih others (by omega))

/-- A text without line breaks begins with none where it is written. -/
theorem Spells.starts_line {q : Quotation} {long : Bool} {run : Nat} {cs s : List Char}
    (spells : Spells q long run cs s) (line : '\n' ∉ cs) : ∀ c ∈ s.head?, c ≠ '\n' ∧ c ≠ '\r' := by
  intro d first
  cases spells with
  | nil => cases first
  | char keeps =>
    cases first
    refine ⟨?_, not_carriageReturn keeps.allowed⟩
    rintro rfl
    exact line List.mem_cons_self
  | mark =>
    cases first
    cases q <;> decide
  | lineEnd => exact absurd List.mem_cons_self line
  | @escape _ c e _ _ _ escape =>
    rw [List.head?_append, escape.starts] at first
    cases first
    decide
  | fold =>
    cases first
    decide

/-- A line break is put after three marks if the text has one. -/
theorem Spells.literal_long {q : Quotation} {cs s : List Char} (spells : Spells q true 0 cs s) :
    Literal cs true (q.mark :: q.mark :: q.mark ::
      ((if '\n' ∈ cs then ['\n'] else []) ++ (s ++ [q.mark, q.mark, q.mark]))) := by
  refine .long ?_ spells
  split
  · exact .inr (.inl rfl)
  next line => exact .inl ⟨spells.starts_line line, rfl⟩

theorem literal_escapedText (cs : List Char) :
    Literal cs false ("\"" ++ escapedText cs ++ "\"").toList := by
  simpa [Quotation.mark] using Literal.short (escapedText_spells cs)

theorem toList_lineBreak (cs : List Char) :
    (if cs.contains '\n' then "\n" else "").toList = if '\n' ∈ cs then ['\n'] else [] := by
  by_cases lines : '\n' ∈ cs <;> simp [lines]

theorem literal_escapedLong (cs : List Char) :
    Literal cs true ("\"\"\"" ++ (if cs.contains '\n' then "\n" else "") ++ escapedLong 0 cs ++
      "\"\"\"").toList := by
  have literal := (escapedLong_spells (Nat.zero_le 2) cs).literal_long
  simp only [String.toList_append, toList_lineBreak]
  simpa [Quotation.mark] using literal

/-- A text in single quotes stands there as it is. -/
theorem single_keeps (long : Bool) {cs : List Char} (clear : cs.any isControl = false)
    (line : long = false → '\n' ∉ cs) :
    ∀ c ∈ cs, c ≠ Quotation.single.mark → Quotation.single.Keeps long c := by
  intro c member notMark
  refine ⟨notMark, nofun, ?_⟩
  have clear := List.any_eq_false.mp clear c member
  by_cases feed : c = '\n'
  · subst feed
    cases long with
    | true => rfl
    | false => exact absurd member (line rfl)
  · simp_all [isControl]

theorem textLiteral_literal (text : String) :
    ∃ long, Literal text.toList long (textLiteral text).toList := by
  dsimp only [textLiteral]
  split
  · exact ⟨_, literal_escapedText _⟩
  · split
    next plain =>
      simp only [Bool.and_eq_true, Bool.not_eq_true', decide_eq_true_eq] at plain
      obtain ⟨⟨clear, line⟩, marks⟩ := plain
      have keeps := single_keeps false clear fun _ => by simpa using line
      have spells : Spells .single false 0 text.toList text.toList :=
        verbatim_spells keeps (Nat.le_of_eq marks)
      exact ⟨false, by simpa [Quotation.mark] using Literal.short spells⟩
    · split
      · exact ⟨_, literal_escapedLong _⟩
      · split
        next plain =>
          simp only [Bool.and_eq_true, Bool.not_eq_true', decide_eq_true_eq] at plain
          obtain ⟨clear, marks⟩ := plain
          have keeps := single_keeps true clear nofun
          have spells : Spells .single true 0 text.toList text.toList :=
            verbatim_spells keeps marks
          have literal := spells.literal_long
          refine ⟨true, ?_⟩
          simp only [String.toList_append, toList_lineBreak]
          simpa [Quotation.mark] using literal
        · split
          next lines =>
            have literal := literal_escapedLong text.toList
            rw [if_pos lines] at literal
            exact ⟨true, literal⟩
          · exact ⟨_, literal_escapedText _⟩

end Backtrack.Toml
