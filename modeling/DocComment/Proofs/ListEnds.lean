import DocComment.Text
import Mathlib.Data.List.DropRight

/-!
# The ends of a list

A program that runs on its own cuts the end of a list by `dropEndWhile` and `takeEndWhile`. These
are the library's `List.rdropWhile` and `List.rtakeWhile`, and it is of the library's names that the
theory speaks. Their laws for lists put together, mapped or cut at the front stand here.
-/

namespace DocComment

variable {α : Type} (p : α → Bool)

@[simp] theorem dropEndWhile_eq_rdropWhile (l : List α) : dropEndWhile p l = l.rdropWhile p := rfl

@[simp] theorem takeEndWhile_eq_rtakeWhile (l : List α) : takeEndWhile p l = l.rtakeWhile p := rfl

/-- A tail that is not all dropped keeps what stands before it. -/
theorem rdropWhile_append (l m : List α) :
    (l ++ m).rdropWhile p =
      if (m.rdropWhile p).isEmpty then l.rdropWhile p else l ++ m.rdropWhile p := by
  rw [List.rdropWhile, List.rdropWhile, List.rdropWhile, List.reverse_append, List.dropWhile_append]
  by_cases h : (m.reverse.dropWhile p).isEmpty <;> simp [h]

/-- Nothing before a member to keep is dropped. -/
theorem rdropWhile_append_cons {a : α} (h : p a = false) (l m : List α) :
    (l ++ a :: m).rdropWhile p = l ++ a :: m.rdropWhile p := by
  rw [List.append_cons, rdropWhile_append]
  by_cases hm : m.rdropWhile p = []
  · simp [hm, List.rdropWhile_concat_neg p l a (by simp [h])]
  · simp [hm]

theorem isEmpty_rdropWhile (l : List α) : (l.rdropWhile p).isEmpty = l.all p := by
  rw [Bool.eq_iff_iff, List.isEmpty_iff, List.rdropWhile_eq_nil_iff, List.all_eq_true]

/-- A tail that is all dropped leaves no trace. -/
theorem rdropWhile_append_of_all {m : List α} (h : ∀ a ∈ m, p a = true) (l : List α) :
    (l ++ m).rdropWhile p = l.rdropWhile p := by
  rw [rdropWhile_append, List.rdropWhile_eq_nil_iff.2 h]
  rfl

theorem not_of_getLast?_rdropWhile {l : List α} {a : α} (h : (l.rdropWhile p).getLast? = some a) :
    p a = false := by
  obtain ⟨hne, rfl⟩ := List.mem_getLast?_eq_getLast h
  simpa using List.rdropWhile_last_not p l hne

/-- A list that does not end in such a member is kept. -/
theorem rdropWhile_eq_self_of_getLast? {l : List α}
    (h : ∀ a, l.getLast? = some a → p a = false) : l.rdropWhile p = l :=
  List.rdropWhile_eq_self_iff.2 fun hl => by simp [h _ (List.getLast?_eq_some_getLast hl)]

theorem rdropWhile_map {β : Type} (f : β → α) (l : List β) :
    (l.map f).rdropWhile p = (l.rdropWhile (p ∘ f)).map f := by
  rw [List.rdropWhile, List.rdropWhile, ← List.map_reverse, List.dropWhile_map, List.map_reverse]

/-- The two ends of a list can be cut in either order. -/
theorem rdropWhile_dropWhile (l : List α) :
    (l.dropWhile p).rdropWhile p = (l.rdropWhile p).dropWhile p := by
  induction l with
  | nil => rfl
  | cons a l ih =>
    cases ha : p a with
    | false =>
      have hkept := rdropWhile_append_cons p ha [] l
      rw [List.nil_append, List.nil_append] at hkept
      rw [List.dropWhile_cons_of_neg (by simp [ha]), hkept,
        List.dropWhile_cons_of_neg (by simp [ha])]
    | true =>
      have hcut : ((a :: l).rdropWhile p).dropWhile p = (l.rdropWhile p).dropWhile p := by
        rw [← List.singleton_append, rdropWhile_append]
        cases l.rdropWhile p with
        | nil => simp [List.rdropWhile_singleton, ha]
        | cons b m => simp [ha]
      rw [List.dropWhile_cons_of_pos ha, ih, hcut]

section Silent

variable {β : Type} {f : α → List β} (hf : ∀ a, p a = true → f a = [])
include hf

/-- Members that add nothing to a text can be cut from the front of a list, also before others are
picked out of it. -/
theorem flatMap_filter_dropWhile (q : α → Bool) (l : List α) :
    ((l.dropWhile p).filter q).flatMap f = (l.filter q).flatMap f := by
  have hfront : ((l.takeWhile p).filter q).flatMap f = [] := by
    rw [List.flatMap_eq_nil_iff]
    intro a ha
    exact hf a (List.mem_takeWhile_imp (List.mem_filter.1 ha).1)
  have hl := congrArg (fun l => (l.filter q).flatMap f)
    (List.takeWhile_append_dropWhile (p := p) (l := l))
  simp only [List.filter_append, List.flatMap_append] at hl
  rw [hfront] at hl
  exact hl

theorem flatMap_dropWhile (l : List α) : (l.dropWhile p).flatMap f = l.flatMap f := by
  have h := flatMap_filter_dropWhile p hf (fun _ => true) l
  rwa [List.filter_eq_self.2 (by simp), List.filter_eq_self.2 (by simp)] at h

/-- They can be cut from the end as well. -/
theorem flatMap_rdropWhile (l : List α) : (l.rdropWhile p).flatMap f = l.flatMap f := by
  have hend : (l.rtakeWhile p).flatMap f = [] := by
    rw [List.flatMap_eq_nil_iff]
    exact fun a ha => hf a (List.mem_rtakeWhile_imp ha)
  have hl := congrArg (List.flatMap f) (List.rdropWhile_append_rtakeWhile (p := p) (l := l))
  rw [List.flatMap_append, hend, List.append_nil] at hl
  exact hl

end Silent

end DocComment
