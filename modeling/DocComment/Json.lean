import DocComment.Decimal

/-!
# JSON values

An object keeps its members in the order of the text, repeated names included.
-/

namespace DocComment

inductive Json where
  | null
  | bool (value : Bool)
  | num (value : Decimal)
  | str (value : String)
  | arr (items : List Json)
  | obj (members : List (String × Json))
  /-- A well-formed value that no other constructor can hold: text with half a surrogate pair, a
  number beyond the range of doubles, or an array or object nested too deep. -/
  | unheld
  deriving Repr, Inhabited

namespace Json

def str? : Json → Option String
  | str value => some value
  | _ => none

def bool? : Json → Option Bool
  | bool value => some value
  | _ => none

def arr? : Json → Option (List Json)
  | arr items => some items
  | _ => none

/-- The values given for the fields `names`: an object gives them by name, each at most once and
beside any others, and an array gives them in order, as many as it has. -/
def fields (names : List String) : Json → Option (String → Option Json)
  | obj members =>
    if names.all fun name => members.countP (·.1 = name) ≤ 1 then
      some fun name => (members.find? (·.1 = name)).map (·.2)
    else none
  | arr items =>
    if items.length ≤ names.length then
      some fun name => ((names.zip items).find? (·.1 = name)).map (·.2)
    else none
  | _ => none

/-- A field's value lies inside the value that gives it. -/
theorem sizeOf_lt_of_fields {names : List String} {json value : Json}
    {given : String → Option Json} {name : String} (h : json.fields names = some given)
    (hv : given name = some value) : sizeOf value < sizeOf json := by
  cases json with
  | obj members =>
    simp only [fields] at h
    split at h <;> cases h
    simp only [Option.map_eq_some_iff] at hv
    obtain ⟨⟨key, found⟩, hm, rfl⟩ := hv
    have := List.sizeOf_lt_of_mem (List.mem_of_find?_eq_some hm)
    simp at this ⊢
    omega
  | arr items =>
    simp only [fields] at h
    split at h <;> cases h
    simp only [Option.map_eq_some_iff] at hv
    obtain ⟨⟨key, found⟩, hm, rfl⟩ := hv
    have := List.sizeOf_lt_of_mem (List.of_mem_zip (List.mem_of_find?_eq_some hm)).2
    simp at this ⊢
    omega
  | _ => simp [fields] at h

end Json

end DocComment
