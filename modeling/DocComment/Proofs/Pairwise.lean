import Mathlib.Data.List.Forall2

/-!
# Lists compared place by place

A relation between the members of two lists of one length, carried through the list operations of
the passes.
-/

namespace DocComment

section Related

variable {α β : Type} {R S : α → β → Prop} {l : List α} {m : List β}

/-- A relation can be exchanged for one that follows from it on the members of the first list. -/
theorem forall₂_imp_of_mem (himp : ∀ a ∈ l, ∀ b, R a b → S a b) (h : List.Forall₂ R l m) :
    List.Forall₂ S l m :=
  ((List.forall₂_and_left l m).2 ⟨himp, h⟩).imp fun _ b hab => hab.1 b hab.2

theorem forall₂_congr_of_mem (hiff : ∀ a ∈ l, ∀ b, R a b ↔ S a b) :
    List.Forall₂ R l m ↔ List.Forall₂ S l m :=
  ⟨forall₂_imp_of_mem fun a ha b => (hiff a ha b).1,
    forall₂_imp_of_mem fun a ha b => (hiff a ha b).2⟩

theorem exists_of_mem_forall₂ (h : List.Forall₂ R l m) {a : α} (ha : a ∈ l) : ∃ b ∈ m, R a b := by
  induction h with
  | nil => cases ha
  | @cons first other _ _ hfirst _ ih =>
    rcases List.mem_cons.1 ha with rfl | ha
    · exact ⟨other, List.mem_cons_self, hfirst⟩
    · obtain ⟨b, hb, hab⟩ := ih ha
      exact ⟨b, List.mem_cons_of_mem _ hb, hab⟩

end Related

section Indistinct

variable {α : Type} {R : α → α → Prop} {l m : List α} {p : α → Bool}

/-- A function that does not tell related members apart gives the same list of values. -/
theorem map_eq_of_forall₂ {β : Type} {f : α → β} (h : List.Forall₂ R l m)
    (hf : ∀ a ∈ l, ∀ b, R a b → f a = f b) : l.map f = m.map f := by
  rw [← List.forall₂_eq_eq_eq, List.forall₂_map_left_iff, List.forall₂_map_right_iff]
  exact forall₂_imp_of_mem hf h

/-- Lists that differ only where nothing is kept keep the same. -/
theorem filter_eq_of_forall₂ (h : List.Forall₂ R l m)
    (hR : ∀ a b, R a b → a = b ∨ p a = false ∧ p b = false) : l.filter p = m.filter p := by
  induction h with
  | nil => rfl
  | @cons a b l m hab _ ih =>
    rw [List.filter_cons, List.filter_cons, ih]
    rcases hR a b hab with rfl | ⟨ha, hb⟩
    · rfl
    · rw [ha, hb]
      rfl

theorem forall₂_dropWhile (h : List.Forall₂ R l m) (hR : ∀ a b, R a b → p a = p b) :
    List.Forall₂ R (l.dropWhile p) (m.dropWhile p) := by
  induction h with
  | nil => exact .nil
  | @cons a b l m hab hlm ih =>
    rw [List.dropWhile_cons, List.dropWhile_cons, hR a b hab]
    split
    · exact ih
    · exact .cons hab hlm

end Indistinct

end DocComment
