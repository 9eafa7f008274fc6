import Mathlib.Data.List.TakeWhile

/-!
# `Lib.Spans` — cutting a list where a property ends

A list that is put together from elements with a property and a rest that starts with one without it is cut there by
`takeWhile` and `dropWhile`.
-/

namespace Spans

variable {α : Type*} {p : α → Bool} {l r : List α}

/-- The rest does not go on with the property. -/
def Stops (p : α → Bool) (r : List α) : Prop := ∀ a ∈ r.head?, p a = false

@[simp] theorem stops_nil : Stops p ([] : List α) := nofun

theorem stops_cons {a : α} (h : p a = false) : Stops p (a :: r) := fun _ hb => Option.some.inj hb ▸ h

theorem takeWhile_eq (hl : ∀ a ∈ l, p a = true) (hr : Stops p r) : (l ++ r).takeWhile p = l := by
  rw [List.takeWhile_append_of_pos hl]
  cases r with
  | nil => exact List.append_nil l
  | cons a r => rw [List.takeWhile_cons_of_neg (by rw [hr a rfl]; exact Bool.false_ne_true), List.append_nil]

theorem dropWhile_eq (hl : ∀ a ∈ l, p a = true) (hr : Stops p r) : (l ++ r).dropWhile p = r := by
  rw [List.dropWhile_append_of_pos hl]
  cases r with
  | nil => rfl
  | cons a r => exact List.dropWhile_cons_of_neg (by rw [hr a rfl]; exact Bool.false_ne_true)

/-- What is in front of the property's end, and what follows, may be blank. -/
theorem stops_append (hl : Stops p l) (hr : l = [] → Stops p r) : Stops p (l ++ r) := by
  cases l with
  | nil => exact hr rfl
  | cons a l => exact hl

end Spans
