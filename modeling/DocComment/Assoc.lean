/-!
# Association lists

Lists of keys with values, in the order in which the keys came.
-/

namespace DocComment.Assoc

variable {κ α : Type} [DecidableEq κ]

def get? (key : κ) : List (κ × α) → Option α
  | [] => none
  | (other, value) :: rest => if other = key then some value else get? key rest

/-- Puts a value at the place of its key, or at the end if the key is new. -/
def put (key : κ) (value : α) : List (κ × α) → List (κ × α)
  | [] => [(key, value)]
  | (other, old) :: rest =>
    if other = key then (key, value) :: rest else (other, old) :: put key value rest

def erase (key : κ) (entries : List (κ × α)) : List (κ × α) :=
  entries.filter fun entry => entry.1 ≠ key

@[simp] theorem get?_nil (key : κ) : get? key ([] : List (κ × α)) = none := rfl

theorem get?_put (key other : κ) (value : α) (entries : List (κ × α)) :
    get? other (put key value entries) =
      if key = other then some value else get? other entries := by
  induction entries with
  | nil => rfl
  | cons head rest ih =>
    obtain ⟨name, old⟩ := head
    by_cases h : name = key
    · subst h
      by_cases ho : name = other <;> simp [put, get?, ho]
    · by_cases ho : name = other
      · have : key ≠ other := fun hk => h (ho.trans hk.symm)
        simp [put, get?, ho, this, Ne.symm this]
      · simp [put, get?, h, ho, ih]

end DocComment.Assoc
