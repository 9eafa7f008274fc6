import Mathlib.Algebra.Order.Ring.Nat
import Mathlib.Algebra.Order.BigOperators.Group.List
import Mathlib.Data.List.Induction
import Mathlib.Data.List.Nodup
import Mathlib.Data.List.Perm.Subperm
import Mathlib.Tactic.SplitIfs

/-!
# `Lib.Sums` — sums of counters over a list of owners

A counter is a map `g : α → Nat`, a total is `(l.map g).sum`. Stepping the counter of one owner steps the
total by the same amount (`sum_map_add`); disjoint groups of owners do not count more than everybody
together (`sum_groups_le`); and when the parts do not exceed the whole, neither do their rounded-down
shares of it (`sum_shares_le`). Quotients add up to the quotient of the sum as long as the remainders do not
(`sum_div_eq_iff`). Dealing `k < n` to share `k * m / n` of `m` makes the shares even
(`shareSize_eq`).
-/

namespace Sums

variable {α ι : Type*}

theorem sum_map_congr {l : List α} {g g' : α → Nat} (h : ∀ x ∈ l, g' x = g x) :
    (l.map g').sum = (l.map g).sum := by
  rw [List.map_congr_left h]

/-- Stepping the counter of one owner by `k` steps the total by `k`. -/
theorem sum_map_add {l : List α} {g g' : α → Nat} {a : α} {k : Nat} (hnd : l.Nodup) (ha : a ∈ l)
    (hne : ∀ x ∈ l, x ≠ a → g' x = g x) (hk : g' a = g a + k) :
    (l.map g').sum = (l.map g).sum + k := by
  induction l with
  | nil => simp at ha
  | cons b l ih =>
      obtain ⟨hb, hnd⟩ := List.nodup_cons.mp hnd
      rw [List.map_cons, List.map_cons, List.sum_cons, List.sum_cons]
      rcases List.mem_cons.mp ha with rfl | ha
      · have hrest : (l.map g').sum = (l.map g).sum :=
          sum_map_congr fun x hx => hne x (List.mem_cons_of_mem a hx) fun he => hb (he ▸ hx)
        omega
      · have hba : b ≠ a := fun he => hb (he ▸ ha)
        have hrest := ih hnd ha fun x hx => hne x (List.mem_cons_of_mem b hx)
        have hhead := hne b List.mem_cons_self hba
        omega

theorem sum_map_zero {l : List α} {g : α → Nat} (h : ∀ x ∈ l, g x = 0) : (l.map g).sum = 0 := by
  induction l with
  | nil => rfl
  | cons b l ih =>
      simp [h b List.mem_cons_self, ih fun x hx => h x (List.mem_cons_of_mem b hx)]

/-- One owner has at most what everybody has. -/
theorem le_sum_map {l : List α} {g : α → Nat} {a : α} (ha : a ∈ l) : g a ≤ (l.map g).sum :=
  List.single_le_sum (fun _ _ => Nat.zero_le _) _ (List.mem_map_of_mem ha)

/-- A list without repetition sums to at most any list that contains it. -/
theorem sum_map_le_of_subset {l m : List α} {g : α → Nat} (hnd : l.Nodup) (hsub : l ⊆ m) :
    (l.map g).sum ≤ (m.map g).sum := by
  obtain ⟨k, hperm, hk⟩ := List.Nodup.subperm hnd hsub
  rw [← (hperm.map g).sum_eq]
  exact (hk.map g).sum_le_sum fun _ _ => Nat.zero_le _

/-- Disjoint groups together count at most what everybody counts. -/
theorem sum_groups_le {groups : List ι} {of : ι → List α} {m : List α} {g : α → Nat}
    (hgroups : groups.Nodup) (hnd : ∀ i ∈ groups, (of i).Nodup) (hsub : ∀ i ∈ groups, of i ⊆ m)
    (hdisj : ∀ i ∈ groups, ∀ j ∈ groups, i ≠ j → ∀ x ∈ of i, x ∉ of j) :
    (groups.map fun i => ((of i).map g).sum).sum ≤ (m.map g).sum := by
  have hflat : (groups.flatMap of).Nodup := by
    refine List.nodup_flatMap.mpr ⟨hnd, ?_⟩
    refine hgroups.imp_of_mem fun {i j} hi hj hij => ?_
    exact fun x hx hx' => hdisj i hi j hj hij x hx hx'
  have hsum : ((groups.flatMap of).map g).sum = (groups.map fun i => ((of i).map g).sum).sum := by
    clear hgroups hnd hsub hdisj hflat
    induction groups with
    | nil => rfl
    | cons i groups ih => simp [ih]
  rw [← hsum]
  refine sum_map_le_of_subset hflat fun x hx => ?_
  obtain ⟨i, hi, hxi⟩ := List.mem_flatMap.mp hx
  exact hsub i hi hxi

/-- Counting the owners of each group counts the owners that have one. -/
theorem sum_countP [DecidableEq ι] {groups : List ι} {m : List α} {of : α → Option ι}
    (hgroups : groups.Nodup) (hin : ∀ x ∈ m, ∀ i, of x = some i → i ∈ groups) :
    (groups.map fun i => m.countP fun x => of x == some i).sum =
      m.countP fun x => (of x).isSome := by
  induction m with
  | nil => exact sum_map_zero fun _ _ => rfl
  | cons x m ih =>
      have ih := ih fun y hy => hin y (List.mem_cons_of_mem x hy)
      cases hx : of x with
      | none => simpa [List.countP_cons, hx] using ih
      | some i =>
          -- exactly the group of `x` counts one more
          have hi : i ∈ groups := hin x List.mem_cons_self i hx
          have hadd : (groups.map fun i => (x :: m).countP fun x => of x == some i).sum =
              (groups.map fun i => m.countP fun x => of x == some i).sum + 1 :=
            sum_map_add hgroups hi (fun j _ hj => by simp [hx, Ne.symm hj]) (by simp [hx])
          rw [hadd, ih]
          simp [hx]

/-- One more owner counts. -/
theorem countP_add_one {l : List α} {p p' : α → Bool} {a : α} (hnd : l.Nodup) (ha : a ∈ l)
    (hne : ∀ x ∈ l, x ≠ a → p' x = p x) (hp : p a = false) (hp' : p' a = true) :
    l.countP p' = l.countP p + 1 := by
  induction l with
  | nil => simp at ha
  | cons b l ih =>
      obtain ⟨hb, hnd⟩ := List.nodup_cons.mp hnd
      rcases List.mem_cons.mp ha with rfl | ha
      · have hrest : l.countP p' = l.countP p := List.countP_congr fun x hx => by
          rw [hne x (List.mem_cons_of_mem a hx) fun he => hb (he ▸ hx)]
        simp [hp, hp', hrest]
      · have hba : b ≠ a := fun he => hb (he ▸ ha)
        have hrest := ih hnd ha fun x hx => hne x (List.mem_cons_of_mem b hx)
        rw [List.countP_cons, List.countP_cons, hrest, hne b List.mem_cons_self hba]
        omega

/-- **Shares.** Parts of a whole `t` have rounded-down shares, in units of `1/k`, of at most `k` together. -/
theorem sum_shares_le {l : List ι} {part : ι → Nat} {t k : Nat} (ht : 0 < t)
    (hpart : (l.map part).sum ≤ t) : (l.map fun i => part i * k / t).sum ≤ k := by
  have hfloor : (l.map fun i => part i * k / t).sum ≤ (l.map part).sum * k / t := by
    clear hpart
    induction l with
    | nil => simp
    | cons i l ih =>
        rw [List.map_cons, List.map_cons, List.sum_cons, List.sum_cons, Nat.add_mul]
        exact (Nat.add_le_add_left ih _).trans Nat.div_add_div_le_add_div
  calc (l.map fun i => part i * k / t).sum
      ≤ (l.map part).sum * k / t := hfloor
    _ ≤ t * k / t := Nat.div_le_div_right (Nat.mul_le_mul_right k hpart)
    _ = k := Nat.mul_div_cancel_left k ht

/-! ## Even shares -/

theorem div_add_mod_sum (n : Nat) (l : List Nat) :
    n * (l.map (· / n)).sum + (l.map (· % n)).sum = l.sum := by
  induction l with
  | nil => rfl
  | cons x l ih =>
      have hx := Nat.div_add_mod x n
      simp only [List.map_cons, List.sum_cons, Nat.mul_add]
      omega

/-- The quotients do not exceed the quotient of the sum. -/
theorem sum_div_le {n : Nat} (hn : 0 < n) (l : List Nat) : (l.map (· / n)).sum ≤ l.sum / n := by
  have hsum := div_add_mod_sum n l
  rw [Nat.le_div_iff_mul_le hn, Nat.mul_comm]
  omega

/-- **Quotients add up** exactly when the remainders together stay below the divisor. -/
theorem sum_div_eq_iff {n : Nat} (hn : 0 < n) (l : List Nat) :
    (l.map (· / n)).sum = l.sum / n ↔ (l.map (· % n)).sum < n := by
  rw [← div_add_mod_sum n l, Nat.mul_add_div hn, Nat.left_eq_add, Nat.div_eq_zero_iff_lt hn]

/-- How many `k < n` are dealt to share `i` of `m`. -/
def shareSize (n m i : Nat) : Nat := (List.range n).countP fun k => k * m / n == i

/-- The `k` dealt to share `i` are those between two rounded-up multiples of `n / m`. -/
theorem share_iff {n m i k : Nat} (hn : 0 < n) (hm : 0 < m) :
    k * m / n = i ↔ (i * n + m - 1) / m ≤ k ∧ k < ((i + 1) * n + m - 1) / m := by
  rw [Nat.div_eq_iff hn]
  have hlo : (i * n + m - 1) / m ≤ k ↔ i * n ≤ k * m := by
    rw [← Nat.lt_succ_iff, Nat.div_lt_iff_lt_mul hm, Nat.succ_mul]
    omega
  have hhi : k < ((i + 1) * n + m - 1) / m ↔ k * m < (i + 1) * n := by
    rw [← Nat.succ_le_iff, Nat.le_div_iff_mul_le hm, Nat.succ_mul]
    omega
  rw [hlo, hhi, Nat.succ_mul]
  omega

theorem countP_range_interval {n a b : Nat} (hb : b ≤ n) :
    ((List.range n).countP fun k => decide (a ≤ k ∧ k < b)) = b - a := by
  induction n generalizing b with
  | zero =>
      obtain rfl := Nat.le_zero.mp hb
      rw [Nat.zero_sub]
      rfl
  | succ n ih =>
      rw [List.range_succ, List.countP_append, List.countP_singleton]
      rcases Nat.lt_or_ge n b with hlt | hge
      · obtain rfl : b = n + 1 := by omega
        have hrest : ((List.range n).countP fun k => decide (a ≤ k ∧ k < n + 1)) =
            (List.range n).countP fun k => decide (a ≤ k ∧ k < n) := by
          refine List.countP_congr fun k hk => ?_
          have hkn : k < n := List.mem_range.mp hk
          simp only [decide_eq_true_eq]
          omega
        rw [hrest, ih (Nat.le_refl n)]
        split_ifs with hmem
        · have := of_decide_eq_true hmem
          omega
        · have : ¬ (a ≤ n ∧ n < n + 1) := fun h => hmem (decide_eq_true h)
          omega
      · have hout : ¬ (decide (a ≤ n ∧ n < b) = true) := by
          intro hmem
          have := of_decide_eq_true hmem
          omega
        rw [ih hge, if_neg hout, Nat.add_zero]

/-- **Even shares.** Each of `m` shares of `n` gets `n / m` of them, rounded down or up. -/
theorem shareSize_eq {n m i : Nat} (hn : 0 < n) (hi : i < m) :
    shareSize n m i = n / m ∨ shareSize n m i = (n + m - 1) / m := by
  have hm : 0 < m := Nat.zero_lt_of_lt hi
  have hend : ((i + 1) * n + m - 1) / m ≤ n := by
    have hle : (i + 1) * n ≤ m * n := Nat.mul_le_mul_right n hi
    rw [← Nat.lt_succ_iff, Nat.div_lt_iff_lt_mul hm]
    have hexp := Nat.succ_mul n m
    rw [Nat.mul_comm n m] at hexp
    omega
  have hsize : shareSize n m i = ((i + 1) * n + m - 1) / m - (i * n + m - 1) / m := by
    rw [← countP_range_interval hend]
    refine List.countP_congr fun k _ => ?_
    rw [beq_iff_eq, decide_eq_true_eq]
    exact share_iff hn hm
  -- moving the interval by `n` moves its rounded-up end by `n / m`, rounded down or up
  have hlo : (i * n + m - 1) / m + n / m ≤ ((i + 1) * n + m - 1) / m := by
    have hsum : (i + 1) * n + m - 1 = (i * n + m - 1) + n := by
      rw [Nat.succ_mul]
      omega
    rw [hsum]
    exact Nat.div_add_div_le_add_div
  have hhi : ((i + 1) * n + m - 1) / m ≤ (i * n + m - 1) / m + (n + m - 1) / m := by
    have hup : n ≤ m * ((n + m - 1) / m) := by
      have hlt := Nat.lt_mul_div_succ (n + m - 1) hm
      rw [Nat.mul_succ] at hlt
      omega
    calc ((i + 1) * n + m - 1) / m ≤ (i * n + m - 1 + m * ((n + m - 1) / m)) / m := by
          refine Nat.div_le_div_right ?_
          rw [Nat.succ_mul]
          omega
      _ = (i * n + m - 1) / m + (n + m - 1) / m := Nat.add_mul_div_left _ _ hm
  have hnear : (n + m - 1) / m ≤ n / m + 1 := by
    rw [← Nat.lt_succ_iff, Nat.div_lt_iff_lt_mul hm]
    have hlt := Nat.lt_mul_div_succ n hm
    rw [Nat.succ_mul, Nat.mul_comm _ m]
    omega
  rw [hsize]
  generalize ((i + 1) * n + m - 1) / m = e at *
  generalize (i * n + m - 1) / m = b at *
  generalize (n + m - 1) / m = u at *
  generalize n / m = q at *
  omega

/-- What is decided by the place in a list is counted over the places. -/
theorem countP_places {l : List α} {p : α → Bool} {q : Nat → Bool}
    (h : ∀ i a, l[i]? = some a → p a = q i) : l.countP p = (List.range l.length).countP q := by
  induction l using List.reverseRecOn with
  | nil => rfl
  | append_singleton l a ih =>
      have hlast : p a = q l.length := h l.length a (by simp)
      have hrest : ∀ i b, l[i]? = some b → p b = q i := by
        intro i b hb
        refine h i b ?_
        rwa [List.getElem?_append_left (List.getElem?_eq_some_iff.mp hb).1]
      rw [List.length_append, List.length_singleton, List.range_succ, List.countP_append,
        List.countP_append, ih hrest, List.countP_singleton, List.countP_singleton, hlast]

end Sums
