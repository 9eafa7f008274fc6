import Mathlib.Data.List.Induction

/-!
# `Lib.MarkedStack` — a stack that keeps what was taken off it

Every entry stays in the list it was pushed to, and one that is taken off gets a mark. The stack are the entries
without one (`live`), the top last. An entry that `stays` is not taken off.

* **`live_markLast`** — marking the last entry without a mark is `pop`.
-/

namespace MarkedStack

variable {α : Type*} {stays : α → Bool} {l l' : List (α × Bool)} {s : List α} {a : α}

/-- The entries without a mark. -/
def live (l : List (α × Bool)) : List α := (l.filter fun x => !x.2).map Prod.fst

/-- Mark the first entry without a mark, unless it stays. -/
def markFirst (stays : α → Bool) : List (α × Bool) → List (α × Bool)
  | [] => []
  | (a, true) :: l => (a, true) :: markFirst stays l
  | (a, false) :: l => (a, !stays a) :: l

/-- Mark the last entry without a mark, unless it stays. -/
def markLast (stays : α → Bool) (l : List (α × Bool)) : List (α × Bool) := (markFirst stays l.reverse).reverse

/-- Take the top off, unless it stays. -/
def pop (stays : α → Bool) (s : List α) : List α := if s.getLast?.any (!stays ·) then s.dropLast else s

@[simp] theorem live_nil : live ([] : List (α × Bool)) = [] := rfl

theorem live_append : live (l ++ l') = live l ++ live l' := by
  unfold live
  rw [List.filter_append, List.map_append]

@[simp] theorem live_concat_true : live (l ++ [(a, true)]) = live l := by
  rw [live_append]
  exact List.append_nil _

@[simp] theorem live_concat_false : live (l ++ [(a, false)]) = live l ++ [a] := live_append

@[simp] theorem markLast_nil : markLast stays ([] : List (α × Bool)) = [] := rfl

theorem markLast_concat_true : markLast stays (l ++ [(a, true)]) = markLast stays l ++ [(a, true)] := by
  unfold markLast
  rw [List.reverse_concat, markFirst, List.reverse_cons]

theorem markLast_concat_false : markLast stays (l ++ [(a, false)]) = l ++ [(a, !stays a)] := by
  unfold markLast
  rw [List.reverse_concat, markFirst, List.reverse_cons, List.reverse_reverse]

@[simp] theorem pop_nil : pop stays [] = [] := rfl

theorem pop_concat : pop stays (s ++ [a]) = if stays a then s ++ [a] else s := by
  unfold pop
  rw [List.getLast?_concat, List.dropLast_concat, Option.any_some]
  cases stays a <;> rfl

/-- The entries keep their places. -/
theorem map_fst_markLast : (markLast stays l).map Prod.fst = l.map Prod.fst := by
  induction l using List.reverseRecOn with
  | nil => rfl
  | append_singleton l x ih =>
      obtain ⟨a, b⟩ := x
      cases b with
      | true => rw [markLast_concat_true, List.map_append, ih, List.map_append]
      | false => rw [markLast_concat_false, List.map_append, List.map_append]; rfl

/-- **Marking is popping.** -/
theorem live_markLast : live (markLast stays l) = pop stays (live l) := by
  induction l using List.reverseRecOn with
  | nil => rfl
  | append_singleton l x ih =>
      obtain ⟨a, b⟩ := x
      cases b with
      | true => rw [markLast_concat_true, live_concat_true, live_concat_true, ih]
      | false =>
          rw [markLast_concat_false, live_concat_false, pop_concat]
          cases stays a with
          | true => exact live_concat_false
          | false => exact live_concat_true

end MarkedStack
