import DocComment.Handler
import DocComment.Node

/-!
# The table of handlers

The table is kept in increasing order of the tags. A tag is registered as it is written and looked
up by its base command, so an entry under a qualified tag is listed but never found.
-/

namespace DocComment

structure HandlerTable where
  entries : List (String × Entry) := []
  increasing : entries.Pairwise (·.1 < ·.1) := by simp
  deriving Repr

namespace HandlerTable

def empty : HandlerTable := {}

/-- Puts an entry at its place, instead of an earlier one with the same tag. -/
def place (tag : String) (entry : Entry) : List (String × Entry) → List (String × Entry)
  | [] => [(tag, entry)]
  | (other, old) :: rest =>
    if tag < other then (tag, entry) :: (other, old) :: rest
    else if tag = other then (tag, entry) :: rest
    else (other, old) :: place tag entry rest

theorem mem_place {tag : String} {entry : Entry} {entries : List (String × Entry)}
    {item : String × Entry} (h : item ∈ place tag entry entries) :
    item = (tag, entry) ∨ item ∈ entries := by
  induction entries with
  | nil => simpa [place] using h
  | cons head rest ih =>
    obtain ⟨other, old⟩ := head
    simp only [place] at h
    split at h
    · simpa using h
    · split at h
      · rcases List.mem_cons.1 h with h | h
        · exact .inl h
        · exact .inr (List.mem_cons_of_mem _ h)
      · rcases List.mem_cons.1 h with h | h
        · exact .inr (h ▸ List.mem_cons_self)
        · exact (ih h).imp_right (List.mem_cons_of_mem _)

theorem place_increasing (tag : String) (entry : Entry) {entries : List (String × Entry)}
    (h : entries.Pairwise (·.1 < ·.1)) : (place tag entry entries).Pairwise (·.1 < ·.1) := by
  induction entries with
  | nil => simp [place]
  | cons head rest ih =>
    obtain ⟨other, old⟩ := head
    have hhead : ∀ item ∈ rest, other < item.1 := fun _ hi => List.rel_of_pairwise_cons h hi
    simp only [place]
    split
    · rename_i hlt
      exact .cons (fun item hi => by
        rcases List.mem_cons.1 hi with hi | hi
        · exact hi ▸ hlt
        · exact String.lt_trans hlt (hhead item hi)) h
    · split
      · rename_i heq
        exact .cons (fun item hi => heq ▸ hhead item hi) h.of_cons
      · rename_i hlt hne
        refine .cons (fun item hi => ?_) (ih h.of_cons)
        rcases mem_place hi with hi | hi
        · subst hi
          exact Std.lt_of_le_of_ne (String.not_lt.1 hlt) (Ne.symm hne)
        · exact hhead item hi

/-- The table with one more entry. -/
def register (table : HandlerTable) (tag : String) (entry : Entry) : HandlerTable where
  entries := place tag entry table.entries
  increasing := place_increasing tag entry table.increasing

def registerAll (table : HandlerTable) (entries : List (String × Entry)) : HandlerTable :=
  entries.foldl (fun table item => table.register item.1 item.2) table

@[simp] theorem registerAll_nil (table : HandlerTable) : table.registerAll [] = table := rfl

theorem registerAll_cons (table : HandlerTable) (item : String × Entry)
    (rest : List (String × Entry)) :
    table.registerAll (item :: rest) = (table.register item.1 item.2).registerAll rest := rfl

/-- The entry registered under exactly this tag. -/
def get? (table : HandlerTable) (tag : String) : Option Entry :=
  (table.entries.find? (·.1 = tag)).map (·.2)

/-- The entry that writes nodes of this tag. -/
def lookup (table : HandlerTable) (tag : String) : Option Entry := table.get? (baseCommand tag)

def supports (table : HandlerTable) (tag : String) : Bool := (table.lookup tag).isSome

def tags (table : HandlerTable) : List String := table.entries.map (·.1)

def size (table : HandlerTable) : Nat := table.entries.length

def isEmpty (table : HandlerTable) : Bool := table.entries.isEmpty

@[simp] theorem get?_empty (tag : String) : empty.get? tag = none := rfl

theorem find?_place (tag : String) (entry : Entry) (entries : List (String × Entry))
    (other : String) :
    (place tag entry entries).find? (·.1 = other) =
      if other = tag then some (tag, entry) else entries.find? (·.1 = other) := by
  induction entries with
  | nil => by_cases h : tag = other <;> simp [place, h, eq_comm]
  | cons head rest ih =>
    obtain ⟨name, old⟩ := head
    by_cases h : other = tag
    · subst h
      simp only [place]
      split
      · simp
      · split
        · simp
        · rename_i hne
          simpa [Ne.symm hne] using ih
    · simp only [place]
      split
      · simp [Ne.symm h]
      · split
        · rename_i heq
          simp [Ne.symm h, ← heq]
        · by_cases hn : name = other
          · simp [hn]
          · simpa [h, hn] using ih

/-- The last registration under a tag is the one found. -/
@[simp] theorem get?_register (table : HandlerTable) (tag : String) (entry : Entry)
    (other : String) :
    (table.register tag entry).get? other =
      if other = tag then some entry else table.get? other := by
  by_cases h : other = tag <;> simp [get?, register, find?_place, h]

@[simp] theorem lookup_baseCommand (table : HandlerTable) (tag : String) :
    table.lookup (baseCommand tag) = table.lookup tag := by
  simp [lookup]

theorem mem_tags_iff (table : HandlerTable) (tag : String) :
    tag ∈ table.tags ↔ (table.get? tag).isSome = true := by
  rw [get?, Option.isSome_map, List.find?_isSome, tags, List.mem_map]
  simp only [decide_eq_true_eq]

/-- A tag has an entry exactly if its base command is listed. -/
theorem supports_iff (table : HandlerTable) (tag : String) :
    table.supports tag = true ↔ baseCommand tag ∈ table.tags := by
  rw [supports, lookup, mem_tags_iff]

end HandlerTable

end DocComment
