import Backtrack.Proofs.ByteClasses
import Backtrack.Proofs.Charging
import Backtrack.Proofs.Derivation

/-! How the errors that a rule sends go with the defects in its derivation, told from the rule
alone. A message stays sent, while the mark of a defect is gone when the attempt around it fails, so
what a rule promises of its failures carries what it promises of its matches. A failure that has
sent an error is harmless where the byte that stands there lets nothing else match. -/
namespace Backtrack

variable {σ α : Type}

namespace CharSet

variable {s t : CharSet} {b : UInt8}

def disjoint (s t : CharSet) : Bool := s.bits &&& t.bits == 0

def within (s t : CharSet) : Bool := (s \ t).isEmpty

theorem not_contains_of_disjoint (apart : s.disjoint t = true) (here : s.contains b = true) :
    ¬ t.contains b = true := by
  intro there
  have both : (s.bits &&& t.bits).getLsbD b.toNat = true := by
    rw [BitVec.getLsbD_and]
    exact Bool.and_eq_true_iff.mpr ⟨here, there⟩
  simp [eq_of_beq apart] at both

theorem contains_of_within (inside : s.within t = true) (here : s.contains b = true) :
    t.contains b = true := by
  have nothing : s \ t = empty := congrArg mk (eq_of_beq inside)
  have outside : ¬ (s \ t).contains b = true := nothing ▸ not_contains_empty b
  simpa [contains_sdiff, here] using outside

end CharSet

/-- The first byte at a position or later that is no blank. -/
def headFrom (blanks : CharSet) (input : Bytes) (pos : Nat) : Option UInt8 :=
  (input.drop pos).find? fun b => !blanks.contains b

section Heads

variable {blanks : CharSet} {input rest : Bytes} {pos : Nat} {b : UInt8}

theorem headFrom_of_drop (here : input.drop pos = b :: rest) (solid : blanks.contains b = false) :
    headFrom blanks input pos = some b := by
  simp [headFrom, here, solid]

theorem headFrom_succ (here : input[pos]? = some b) (blank : blanks.contains b = true) :
    headFrom blanks input (pos + 1) = headFrom blanks input pos := by
  obtain ⟨bound, rfl⟩ := List.getElem?_eq_some_iff.mp here
  have split := List.drop_eq_getElem_cons bound
  simp only [headFrom, split, List.find?_cons, blank, Bool.not_true]

end Heads

/-- What a rule promises of its matches and of its failures. -/
structure Outlook where
  /-- A match sends no error. -/
  mute : Bool := true
  /-- After a match that sends an error and has no defect one of these bytes comes next, blanks
  aside. -/
  loose : Option CharSet := some .empty
  /-- A match with a defect sends an error. -/
  told : Bool := true
  /-- Every match has a defect. -/
  marks : Bool := false
  /-- Every match sends an error. -/
  sends : Bool := false
  /-- The errors of a match, less its defects. -/
  net : Option Int := some 0
  /-- A failure sends no error. -/
  discreet : Bool := true
  /-- There is no failure. -/
  total : Bool := false
  /-- Blanks aside, a match begins with one of these bytes, and so does a failure that sends an
  error. -/
  opening : Option CharSet := none
  /-- A match holds blanks only. -/
  blank : Bool := false

namespace Outlook

/-- The bytes of either bound. -/
def union (a b : Option CharSet) : Option CharSet := a.bind fun s => b.map (s ∪ ·)

/-- No byte is in both bounds. -/
def apart : Option CharSet → Option CharSet → Bool
  | some s, some t => s.disjoint t
  | _, _ => false

/-- A match that sends an error has a defect. -/
def owned (o : Outlook) : Bool := o.loose = some .empty

def seq (a b : Outlook) : Outlook where
  mute := a.mute && b.mute
  loose :=
    if a.marks || b.marks then some .empty
    else if a.owned || apart a.loose b.opening then b.loose else none
  told := a.told && b.told || a.sends || b.sends
  marks := a.marks || b.marks
  sends := a.sends || b.sends
  net := a.net.bind fun m => b.net.map (m + ·)
  discreet := a.discreet && (b.total || a.mute && b.discreet)
  total := a.total && b.total
  opening := if a.blank && a.mute && a.discreet then b.opening else a.opening
  blank := a.blank && b.blank

/-- Where the second rule matches, the failure of the first one has sent nothing. -/
def hushes (a b : Outlook) : Bool := a.discreet || apart a.opening b.opening

def choice (a b : Outlook) : Outlook where
  mute := a.mute && b.mute && a.hushes b
  loose := union a.loose (if b.marks then some .empty else if a.hushes b then b.loose else none)
  told := a.told && b.told
  marks := a.marks && b.marks
  sends := a.sends && b.sends
  net := if a.net = b.net && a.hushes b then a.net else none
  discreet := a.discreet && b.discreet
  total := a.total || b.total
  opening := union a.opening b.opening
  blank := a.blank && b.blank

/-- The rule, unless another one matches in its place. -/
def minus (a : Outlook) : Outlook :=
  { a with discreet := a.discreet && a.mute, total := false }

/-- The rule any number of times, up to a failure. -/
def freely (a : Outlook) : Outlook where
  mute := a.mute && a.discreet
  loose := if a.owned then if a.discreet then some .empty else a.opening else none
  told := a.told
  net := if a.net = some 0 && a.discreet then some 0 else none
  total := true
  blank := a.blank

/-- A match is a defect. -/
def marked (a : Outlook) : Outlook :=
  { a with loose := some .empty, told := a.sends, marks := true, net := a.net.map (· - 1) }

/-- A match may send one error more. -/
def claimed (a : Outlook) : Outlook :=
  { a with mute := false, loose := if a.marks then some .empty else none, net := none }

/-- A match sends one error more. -/
def sent (a : Outlook) : Outlook :=
  { a.claimed with told := true, sends := true, net := a.net.map (· + 1) }

/-- The bound holds of the byte ahead. -/
def Allows (bound : Option CharSet) (head : Option UInt8) : Prop :=
  ∀ set, bound = some set → ∃ b, head = some b ∧ set.contains b = true

section Bounds

variable {a b : Option CharSet} {head : Option UInt8}

theorem allows_none : Allows none head := nofun

theorem not_allows_empty : ¬ Allows (some .empty) head := by
  intro bound
  obtain ⟨b, -, member⟩ := bound _ rfl
  exact CharSet.not_contains_empty b member

theorem not_allows_of_apart (distinct : apart a b = true) (first : Allows a head) :
    ¬ Allows b head := by
  intro second
  unfold apart at distinct
  split at distinct
  next s t =>
    obtain ⟨c, rfl, member⟩ := first s rfl
    obtain ⟨_, same, member'⟩ := second t rfl
    cases same
    exact CharSet.not_contains_of_disjoint distinct member member'
  next => contradiction

theorem Allows.left (bound : Allows a head) : Allows (union a b) head := by
  intro set both
  simp only [union, Option.bind_eq_some_iff, Option.map_eq_some_iff] at both
  obtain ⟨s, rfl, t, -, rfl⟩ := both
  obtain ⟨c, here, member⟩ := bound s rfl
  exact ⟨c, here, by simp [CharSet.contains_union, member]⟩

theorem Allows.right (bound : Allows b head) : Allows (union a b) head := by
  intro set both
  simp only [union, Option.bind_eq_some_iff, Option.map_eq_some_iff] at both
  obtain ⟨s, -, t, rfl, rfl⟩ := both
  obtain ⟨c, here, member⟩ := bound t rfl
  exact ⟨c, here, by simp [CharSet.contains_union, member]⟩

end Bounds

/-- What is promised of a match, by the bytes that stand ahead before and after it. -/
structure Matched (o : Outlook) (head after : Option UInt8) (errors defects : Nat) : Prop where
  mute : o.mute = true → errors = 0
  loose : 0 < errors → defects = 0 → Allows o.loose after
  told : o.told = true → 0 < defects → 0 < errors
  marks : o.marks = true → 0 < defects
  sends : o.sends = true → 0 < errors
  net : ∀ n, o.net = some n → (errors : Int) = defects + n
  opening : Allows o.opening head
  blank : o.blank = true → after = head

/-- What is promised of a failure. -/
structure Failed (o : Outlook) (head : Option UInt8) (errors : Nat) : Prop where
  discreet : o.discreet = true → errors = 0
  total : o.total = false
  opening : 0 < errors → Allows o.opening head

variable {a b : Outlook} {head mid after : Option UInt8} {errors errors' defects defects' : Nat}

theorem Matched.not_loose (h : a.Matched head after errors defects) (owned : a.owned = true)
    (clean : defects = 0) : errors = 0 := by
  have empty : a.loose = some .empty := of_decide_eq_true owned
  have silent : ¬ 0 < errors := fun noisy => not_allows_empty (empty ▸ h.loose noisy clean)
  omega

/-- Of a match that is owned and told, the defects and the errors are both there or both missing. -/
theorem Matched.clean_iff (h : a.Matched head after errors defects) (owned : a.owned = true)
    (told : a.told = true) : defects = 0 ↔ errors = 0 := by
  refine ⟨h.not_loose owned, fun quiet => ?_⟩
  have := h.told told
  omega

/-- Of a match with an even account there are as many errors as defects. -/
theorem Matched.even (h : a.Matched head after errors defects) (net : a.net = some 0) :
    errors = defects := by
  have balance := h.net 0 net
  omega

theorem Matched.seq (first : a.Matched head mid errors defects)
    (second : b.Matched mid after errors' defects') :
    (a.seq b).Matched head after (errors + errors') (defects + defects') := by
  have net (n : Int) (both : (a.seq b).net = some n) :
      ((errors + errors' : Nat) : Int) = (defects + defects' : Nat) + n := by
    simp only [Outlook.seq, Option.bind_eq_some_iff, Option.map_eq_some_iff] at both
    obtain ⟨m, left, n, right, rfl⟩ := both
    have := first.net m left
    have := second.net n right
    omega
  have loose (noisy : 0 < errors + errors') (clean : defects + defects' = 0) :
      Allows (a.seq b).loose after := by
    have := first.marks
    have := second.marks
    simp only [Outlook.seq]
    split
    · grind
    split
    next settled =>
      -- An unowned error of the first match is impossible, as the second one has matched there.
      have quiet : errors = 0 := by
        rcases Bool.or_eq_true_iff.mp settled with owned | distinct
        · exact first.not_loose owned (by omega)
        · have excluded : ¬ 0 < errors := fun noisy =>
            not_allows_of_apart distinct (first.loose noisy (by omega)) second.opening
          omega
      exact second.loose (by omega) (by omega)
    next => exact allows_none
  have opening : Allows (a.seq b).opening head := by
    simp only [Outlook.seq]
    split
    next blank =>
      have same : mid = head := first.blank (by grind)
      exact same ▸ second.opening
    next => exact first.opening
  have ⟨mute, _, told, marks, sends, _, _, blank⟩ := first
  have ⟨mute', _, told', marks', sends', _, _, blank'⟩ := second
  refine ⟨?_, loose, ?_, ?_, ?_, net, opening, ?_⟩ <;> simp only [Outlook.seq] <;> grind

theorem Failed.seqFirst (first : a.Failed head errors) : (a.seq b).Failed head errors := by
  have ⟨discreet, total, opening⟩ := first
  constructor <;> simp only [Outlook.seq] <;> grind

theorem Failed.seqSecond (first : a.Matched head mid errors defects)
    (second : b.Failed mid errors') : (a.seq b).Failed head (errors + errors') := by
  have ⟨discreet, total, opening⟩ := second
  constructor
  case opening =>
    intro noisy
    simp only [Outlook.seq]
    split
    next silent =>
      have same : mid = head := first.blank (by grind)
      have quiet : errors = 0 := first.mute (by grind)
      exact same ▸ opening (by omega)
    next => exact first.opening
  all_goals
    have := first.mute
    simp only [Outlook.seq]
    grind

/-- A rule that matches after another one has failed knows that nothing was sent. -/
theorem Failed.hushed (left : a.Failed head errors) (opening : Allows b.opening head)
    (hushes : a.hushes b = true) : errors = 0 := by
  rcases Bool.or_eq_true_iff.mp hushes with discreet | distinct
  · exact left.discreet discreet
  · have excluded : ¬ 0 < errors := fun noisy =>
      not_allows_of_apart distinct (left.opening noisy) opening
    omega

theorem Matched.choiceLeft (left : a.Matched head after errors defects) :
    (a.choice b).Matched head after errors defects := by
  have ⟨mute, loose, told, marks, sends, net, opening, blank⟩ := left
  constructor
  case loose => exact fun noisy clean => (loose noisy clean).left
  case opening => exact opening.left
  all_goals
    simp only [Outlook.choice]
    grind

theorem Matched.choiceRight (left : a.Failed head errors)
    (right : b.Matched head after errors' defects) :
    (a.choice b).Matched head after (errors + errors') defects := by
  have hushed := left.hushed right.opening
  have ⟨mute, loose, told, marks, sends, net, opening, blank⟩ := right
  constructor
  case loose =>
    intro noisy clean
    refine Allows.right ?_
    split
    · grind
    split
    next quiet => exact loose (by have := hushed quiet; omega) clean
    next => exact allows_none
  case opening => exact opening.right
  all_goals
    simp only [Outlook.choice]
    grind

theorem Failed.choice (left : a.Failed head errors) (right : b.Failed head errors') :
    (a.choice b).Failed head (errors + errors') := by
  constructor
  case opening =>
    intro noisy
    rcases Nat.eq_zero_or_pos errors with rfl | noisy'
    · exact (right.opening (by omega)).right
    · exact (left.opening noisy').left
  all_goals
    have ⟨discreet, total, _⟩ := left
    have ⟨discreet', total', _⟩ := right
    simp only [Outlook.choice]
    grind

theorem Matched.minus (h : a.Matched head after errors defects) :
    a.minus.Matched head after errors defects :=
  ⟨h.mute, h.loose, h.told, h.marks, h.sends, h.net, h.opening, h.blank⟩

theorem Failed.minusFirst (h : a.Failed head errors) : a.minus.Failed head errors :=
  ⟨fun discreet => h.discreet (Bool.and_eq_true_iff.mp discreet).1, rfl, h.opening⟩

theorem Failed.minusSecond (h : a.Matched head after errors defects) :
    a.minus.Failed head errors :=
  ⟨fun discreet => h.mute (Bool.and_eq_true_iff.mp discreet).2, rfl, fun _ => h.opening⟩

/-- A repetition ends where its rule fails, whatever that failure has sent. -/
theorem Matched.freelyFailed (h : a.Failed head errors) :
    a.freely.Matched head head errors 0 := by
  have ⟨discreet, _, opening⟩ := h
  constructor
  case loose =>
    intro noisy _
    simp only [Outlook.freely]
    split
    · split
      · grind
      · exact opening noisy
    · exact allows_none
  case opening => exact allows_none
  all_goals
    simp only [Outlook.freely]
    grind

theorem Matched.freelyNil (a : Outlook) (head : Option UInt8) : a.freely.Matched head head 0 0 := by
  constructor
  case opening => exact allows_none
  all_goals
    simp only [Outlook.freely]
    grind

theorem Matched.freelyNext (first : a.Matched head mid errors defects)
    (rest : a.freely.Matched mid after errors' defects') :
    a.freely.Matched head after (errors + errors') (defects + defects') := by
  constructor
  case loose =>
    intro noisy clean
    by_cases owned : a.owned = true
    · have quiet := first.not_loose owned (by omega)
      exact rest.loose (by omega) (by omega)
    · simp only [Outlook.freely, if_neg owned]
      exact allows_none
  case opening => exact allows_none
  all_goals
    have ⟨mute, _, told, _, _, net, _, blank⟩ := first
    have ⟨mute', _, told', _, _, net', _, blank'⟩ := rest
    simp only [Outlook.freely] at *
    grind

theorem Matched.freelyOnce (h : a.Matched head after errors defects) :
    a.freely.Matched head after errors defects :=
  h.freelyNext (.freelyNil a after)

theorem Matched.marked (h : a.Matched head after errors defects) :
    a.marked.Matched head after errors (defects + 1) := by
  have ⟨mute, _, _, _, sends, net, opening, blank⟩ := h
  constructor <;> simp only [Outlook.marked, Option.map_eq_some_iff] <;> grind

theorem Matched.claimed (h : a.Matched head after errors defects) (errors' : Nat) :
    a.claimed.Matched head after (errors + errors') defects := by
  have ⟨_, _, told, marks, sends, _, opening, blank⟩ := h
  constructor
  case loose =>
    simp only [Outlook.claimed]
    split
    · grind
    · exact fun _ _ => allows_none
  all_goals
    simp only [Outlook.claimed]
    grind

theorem Matched.sent (h : a.Matched head after errors defects) :
    a.sent.Matched head after (errors + 1) defects := by
  have ⟨_, loose, _, marks, _, _, opening, blank⟩ := h.claimed 1
  refine ⟨nofun, loose, fun _ _ => by omega, marks, fun _ => by omega, ?_, opening, blank⟩
  have net := h.net
  simp only [Outlook.sent, Option.map_eq_some_iff]
  grind

end Outlook
end Backtrack
