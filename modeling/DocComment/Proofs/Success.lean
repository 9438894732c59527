import Mathlib.Logic.Basic

/-!
# Computations that succeed

A computation made of others succeeds only if they do, so its success can be taken apart step by
step.
-/

namespace DocComment

variable {ε α β : Type}

theorem bind_eq_ok_iff {result : Except ε α} {next : α → Except ε β} {value : β} :
    (result >>= next) = .ok value ↔
      ∃ middle, result = .ok middle ∧ next middle = .ok value := by
  cases result <;> simp [bind, Except.bind]

theorem map_eq_ok_iff {result : Except ε α} {f : α → β} {value : β} :
    result.map f = .ok value ↔ ∃ middle, result = .ok middle ∧ f middle = value := by
  cases result <;> simp [Except.map]

/-- What may be missing was there and has been read. -/
theorem mapM_eq_ok_some_iff {read : α → Except ε β} {given : Option α} {value : β} :
    given.mapM read = .ok (some value) ↔ ∃ a, given = some a ∧ read a = .ok value := by
  cases given with
  | none => simp [pure, Except.pure]
  | some a => cases h : read a <;> simp [h, Functor.map, Except.map]

end DocComment
