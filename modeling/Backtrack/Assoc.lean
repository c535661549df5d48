/-! Lists of named values. The first value under a name counts. -/
namespace Backtrack.Assoc

variable {α : Type}

/-- Gives a name its value, at the end of the list if the name is new. -/
def set (name : String) (value : α) : List (String × α) → List (String × α)
  | [] => [(name, value)]
  | (other, old) :: rest =>
    if other = name then (name, value) :: rest else (other, old) :: set name value rest

variable {name other : String} {entries : List (String × α)}

theorem lookup_cons_ne {value : α} (apart : other ≠ name) :
    List.lookup other ((name, value) :: entries) = entries.lookup other := by
  rw [List.lookup_cons, beq_false_of_ne apart]

@[simp] theorem lookup_set (value : α) : (set name value entries).lookup name = some value := by
  induction entries with
  | nil => exact List.lookup_cons_self
  | cons entry entries ih =>
    rw [set]
    split
    · exact List.lookup_cons_self
    next apart => rw [lookup_cons_ne (Ne.symm apart), ih]

theorem lookup_set_ne (value : α) (apart : other ≠ name) :
    (set name value entries).lookup other = entries.lookup other := by
  induction entries with
  | nil => exact lookup_cons_ne apart
  | cons entry entries ih =>
    rw [set]
    split
    next same => rw [lookup_cons_ne apart, ← lookup_cons_ne (same ▸ apart)]
    · rw [List.lookup_cons, List.lookup_cons, ih]

theorem isSome_lookup_set (value : α) (some : (entries.lookup other).isSome = true) :
    ((set name value entries).lookup other).isSome = true := by
  by_cases same : other = name
  · subst same
    simp
  · rwa [lookup_set_ne value same]

section

variable (new : ∀ entry ∈ entries, entry.1 ≠ name)

include new

theorem set_new (value : α) : set name value entries = entries ++ [(name, value)] := by
  induction entries with
  | nil => rfl
  | cons entry entries ih =>
    obtain ⟨first, others⟩ := List.forall_mem_cons.mp new
    rw [set, if_neg first, ih others]
    rfl

theorem lookup_new : entries.lookup name = none := by
  rw [List.lookup_eq_none_iff]
  intro entry member
  exact bne_iff_ne.mpr (new entry member).symm

end

end Backtrack.Assoc
