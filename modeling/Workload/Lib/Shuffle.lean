import Mathlib.Algebra.Order.Ring.Nat
import Mathlib.Data.List.Nodup
import Mathlib.Data.List.Perm.Basic

/-!
# `Lib.Shuffle` — one exchange of a backwards Fisher–Yates shuffle

`exchange l r i` swaps positions `r ≤ i` of an array. Run with `i` counting down, position `i` receives a
pick out of the part `take (i + 1)` not yet dealt: the pick joins the dealt part (`drop_exchange`), what is
left of the other part is everything else (`perm_take_exchange`).
-/

namespace Shuffle

variable {α : Type*} [Inhabited α]

/-- Swap positions `r` and `i`: `t = l[i]; p = l[r]; l[r] = t; l[i] = p`. -/
def exchange (l : List α) (r i : Nat) : List α :=
  (l.set r (l.getD i default)).set i (l.getD r default)

@[simp] theorem length_exchange (l : List α) (r i : Nat) : (exchange l r i).length = l.length := by
  simp [exchange]

theorem exchange_perm {l : List α} {r i : Nat} (hr : r < l.length) (hi : i < l.length) :
    (exchange l r i).Perm l := by
  have h := List.set_set_perm hr hi
  simpa [exchange, List.getD_eq_getElem?_getD, hr, hi] using h

/-- The dealt part grows by the pick. -/
theorem drop_exchange {l : List α} {r i : Nat} (hri : r ≤ i) (hi : i < l.length) :
    (exchange l r i).drop i = l.getD r default :: l.drop (i + 1) := by
  have hlen : i < (exchange l r i).length := by simpa using hi
  rw [List.drop_eq_getElem_cons hlen]
  congr 1
  · simp [exchange]
  · rw [exchange, List.drop_set_of_lt (by omega), List.drop_set_of_lt (by omega)]

/-- The rest of the undealt part is what it was without the pick. -/
theorem perm_take_exchange {l : List α} {r i : Nat} (hri : r ≤ i) (hi : i < l.length) :
    (l.getD r default :: (exchange l r i).take i).Perm (l.take (i + 1)) := by
  have hperm : ((exchange l r i).take i ++ l.getD r default :: l.drop (i + 1)).Perm l := by
    rw [← drop_exchange hri hi, List.take_append_drop]
    exact exchange_perm (hri.trans_lt hi) hi
  have hcons := List.perm_middle.symm.trans hperm
  have hsplit : (l.take (i + 1) ++ l.drop (i + 1)) = l := List.take_append_drop (i + 1) l
  rw [← List.cons_append] at hcons
  exact (List.perm_append_right_iff (l.drop (i + 1))).mp (hcons.trans (List.Perm.of_eq hsplit.symm))

end Shuffle
