import Mathlib.Algebra.Order.Ring.Nat
import Mathlib.Algebra.BigOperators.Group.List.Basic
import Mathlib.Data.List.Nodup

/-!
# `Lib.Tiers` — consecutive windows of given sizes

Tier `d` of a list of sizes takes the `sizes[d]` ranks after those of the tiers before it. The windows are
given by their end points `ends`; `InWindow` is membership. `layout` writes the same thing out as one list:
position `r` holds the name of the tier whose window contains `r` (`layout_getElem?`), so the number of ranks
of a tier is a count in that list (`count_layout`).
-/

namespace Tiers

variable {δ : Type*}

/-- The end points of consecutive windows that start at `start`. -/
def ends : Nat → List Nat → List Nat
  | _, [] => []
  | start, n :: sizes => (start + n) :: ends (start + n) sizes

/-- Rank `r` lies in window `d`, the first window starting at `start`. -/
def WindowFrom (start : Nat) (e : List Nat) (d r : Nat) : Prop :=
  (start :: e).getD d 0 ≤ r ∧ r < e.getD d 0

/-- Rank `r` lies in window `d`: from the end of the window before on, and before the end of this one. -/
def InWindow (e : List Nat) (d r : Nat) : Prop := WindowFrom 0 e d r

/-- The tier of every rank, in order. -/
def layout (tiers : List δ) (sizes : List Nat) : List δ :=
  (tiers.zip sizes).flatMap fun p => List.replicate p.2 p.1

@[simp] theorem length_ends (start : Nat) (sizes : List Nat) :
    (ends start sizes).length = sizes.length := by
  induction sizes generalizing start with
  | nil => rfl
  | cons n sizes ih => simp [ends, ih]

@[simp] theorem layout_nil_sizes (tiers : List δ) : layout tiers [] = [] := by
  simp [layout]

@[simp] theorem layout_cons (t : δ) (tiers : List δ) (n : Nat) (sizes : List Nat) :
    layout (t :: tiers) (n :: sizes) = List.replicate n t ++ layout tiers sizes := by
  simp [layout]

theorem length_layout {tiers : List δ} {sizes : List Nat} (h : sizes.length = tiers.length) :
    (layout tiers sizes).length = sizes.sum := by
  induction tiers generalizing sizes with
  | nil => simp [List.eq_nil_of_length_eq_zero h]
  | cons t tiers ih =>
      cases sizes with
      | nil => simp at h
      | cons n sizes => simp [ih (by simpa using h)]

/-- Dropping the first window shifts the others. -/
theorem windowFrom_succ {start n d r : Nat} {sizes : List Nat} :
    WindowFrom start (ends start (n :: sizes)) (d + 1) r ↔
      WindowFrom (start + n) (ends (start + n) sizes) d r := by
  simp [WindowFrom, ends]

/-- No window begins before the start. -/
theorem WindowFrom.start_le {sizes : List Nat} {start d r : Nat}
    (h : WindowFrom start (ends start sizes) d r) : start ≤ r := by
  induction sizes generalizing start d with
  | nil => simp [WindowFrom, ends] at h
  | cons n sizes ih =>
      cases d with
      | zero => exact h.1
      | succ d =>
          have hn := ih (windowFrom_succ.mp h)
          omega

/-- A rank of the layout belongs to the tier whose window contains it. -/
theorem layout_getElem? {tiers : List δ} {sizes : List Nat} (h : sizes.length = tiers.length)
    (start r d : Nat) (hw : WindowFrom start (ends start sizes) d (start + r)) :
    (layout tiers sizes)[r]? = tiers[d]? := by
  induction tiers generalizing sizes start r d with
  | nil =>
      obtain rfl := List.eq_nil_of_length_eq_zero h
      simp [WindowFrom, ends] at hw
  | cons t tiers ih =>
      cases sizes with
      | nil => simp at h
      | cons n sizes =>
          rw [layout_cons]
          cases d with
          | zero =>
              have hr : r < n := by simpa [WindowFrom, ends] using hw
              rw [List.getElem?_append_left (by simpa using hr)]
              simp [hr]
          | succ d =>
              -- the ranks of the first tier are passed, the rest is the layout of the others
              have hw' := windowFrom_succ.mp hw
              have hge := hw'.start_le
              have hr : start + r = start + n + (r - n) := by omega
              rw [hr] at hw'
              rw [List.getElem?_append_right (by simp; omega), List.length_replicate,
                List.getElem?_cons_succ]
              exact ih (by simpa using h) (start + n) (r - n) d hw'

/-- Every rank below the total lies in a window. -/
theorem exists_window (sizes : List Nat) (start r : Nat) (hr : r < sizes.sum) :
    ∃ d < sizes.length, WindowFrom start (ends start sizes) d (start + r) := by
  induction sizes generalizing start r with
  | nil => simp at hr
  | cons n sizes ih =>
      by_cases hlt : r < n
      · refine ⟨0, by simp, ?_⟩
        simp [WindowFrom, ends, hlt]
      · obtain ⟨d, hd, hw⟩ := ih (start + n) (r - n) (by simp at hr; omega)
        refine ⟨d + 1, by simpa using hd, ?_⟩
        have hr' : start + n + (r - n) = start + r := by omega
        exact windowFrom_succ.mpr (hr' ▸ hw)

/-- Windows come in order: a rank of an earlier one is below a rank of a later one. -/
theorem WindowFrom.lt_of_lt {sizes : List Nat} {start d e r q : Nat}
    (hr : WindowFrom start (ends start sizes) d r) (hq : WindowFrom start (ends start sizes) e q)
    (hde : d < e) : r < q := by
  induction sizes generalizing start d e with
  | nil => simp [WindowFrom, ends] at hr
  | cons n sizes ih =>
      cases e with
      | zero => exact absurd hde (Nat.not_lt_zero d)
      | succ e =>
          have hq' := windowFrom_succ.mp hq
          cases d with
          | zero =>
              have hr' : r < start + n := by simpa [ends] using hr.2
              exact hr'.trans_le hq'.start_le
          | succ d => exact ih (windowFrom_succ.mp hr) hq' (by omega)

/-- A tier has as many ranks as its size. -/
theorem count_layout [DecidableEq δ] {tiers : List δ} {sizes : List Nat}
    (h : sizes.length = tiers.length) (hnd : tiers.Nodup) {d : Nat} {t : δ}
    (ht : tiers[d]? = some t) : (layout tiers sizes).count t = sizes.getD d 0 := by
  induction tiers generalizing sizes d with
  | nil => simp at ht
  | cons u tiers ih =>
      cases sizes with
      | nil => simp at h
      | cons n sizes =>
          obtain ⟨hu, hnd⟩ := List.nodup_cons.mp hnd
          rw [layout_cons, List.count_append, List.count_replicate]
          cases d with
          | zero =>
              obtain rfl : u = t := by simpa using ht
              have hnot : u ∉ layout tiers sizes := by
                intro hmem
                simp only [layout, List.mem_flatMap] at hmem
                obtain ⟨p, hp, hup⟩ := hmem
                obtain rfl := List.eq_of_mem_replicate hup
                exact hu (List.of_mem_zip hp).1
              simp [List.count_eq_zero_of_not_mem hnot]
          | succ d =>
              have htm : tiers[d]? = some t := by simpa using ht
              have hne : u ≠ t := fun he => hu (he ▸ List.mem_of_getElem? htm)
              simp [hne, ih (by simpa using h) hnd htm]

end Tiers
