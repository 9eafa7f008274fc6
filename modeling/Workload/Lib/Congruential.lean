import Mathlib.Algebra.Ring.GeomSum
import Mathlib.Data.Nat.ModEq
import Mathlib.Dynamics.PeriodicPts.Lemmas
import Mathlib.Tactic.Ring

/-!
# `Lib.Congruential` — linear congruential generators modulo a power of two

`next a c n` is the map `x ↦ a * x + c` modulo `2 ^ n`. After `m` steps a seed has moved by a multiple of the
geometric sum `geom a m`, so the question when it comes back is one about the powers of two in this sum.

* **`minimalPeriod_next`** — with `a ≡ 1` modulo 4 and an odd `c` every seed has the full period.
* `card_filter_iterate` — an orbit of full length meets every element of the set once; for the generator this is
  `card_filter_next`.
-/

namespace Congruential

open Finset Function

/-- One step of the generator. -/
def next (a c n x : ℕ) : ℕ := (a * x + c) % 2 ^ n

/-- The geometric sum of the first `m` powers. -/
def geom (a m : ℕ) : ℕ := ∑ i ∈ range m, a ^ i

variable {a c n x : ℕ}

/-! ## Powers of two in the geometric sum -/

theorem geom_two_mul (a k : ℕ) : geom a (2 * k) = geom a k * (1 + a ^ k) := by
  unfold geom
  rw [two_mul, sum_range_add, mul_add, mul_one, sum_mul]
  exact congrArg _ (sum_congr rfl fun i _ => by rw [pow_add, mul_comm])

theorem geom_mod_two (ha : a % 2 = 1) (m : ℕ) : geom a m % 2 = m % 2 := by
  induction m with
  | zero => rfl
  | succ m ih =>
      have hpow : a ^ m % 2 = 1 := by simp [Nat.pow_mod, ha]
      rw [geom, sum_range_succ, Nat.add_mod, ← geom, ih, hpow]
      omega

/-- A power of two divides the sum exactly when it divides the number of its terms. -/
theorem two_pow_dvd_geom (ha : a % 4 = 1) (n m : ℕ) : 2 ^ n ∣ geom a m ↔ 2 ^ n ∣ m := by
  induction n generalizing m with
  | zero => simp
  | succ n ih =>
      have hodd : a % 2 = 1 := by omega
      rcases Nat.even_or_odd' m with ⟨k, rfl | rfl⟩
      · have hpow : a ^ k % 4 = 1 := by simp [Nat.pow_mod, ha]
        obtain ⟨o, ho⟩ : ∃ o, 1 + a ^ k = 2 * (2 * o + 1) := ⟨(a ^ k - 1) / 4, by omega⟩
        have hco : Nat.Coprime (2 ^ n) (2 * o + 1) := by
          refine Nat.Coprime.pow_left n ?_
          rw [Nat.coprime_two_left]
          exact odd_two_mul_add_one o
        rw [geom_two_mul, ho, pow_succ', Nat.mul_left_comm, Nat.mul_dvd_mul_iff_left Nat.two_pos,
          Nat.mul_dvd_mul_iff_left Nat.two_pos, hco.dvd_mul_right, ih]
      · -- an odd number of odd terms
        have hno : ∀ j, j % 2 = 1 → ¬ 2 ^ (n + 1) ∣ j := by
          intro j hj hdvd
          have htwo : 2 ∣ j := (Dvd.intro_left _ rfl).trans (pow_succ 2 n ▸ hdvd)
          omega
        have hlen : (2 * k + 1) % 2 = 1 := by omega
        exact iff_of_false (hno _ ((geom_mod_two hodd _).trans hlen)) (hno _ hlen)

/-! ## The period -/

theorem iterate_next (a c n x m : ℕ) : (next a c n)^[m] x ≡ a ^ m * x + geom a m * c [MOD 2 ^ n] := by
  induction m with
  | zero => simp [geom, Nat.ModEq.refl]
  | succ m ih =>
      rw [iterate_succ_apply']
      have hstep : next a c n ((next a c n)^[m] x) ≡ a * (next a c n)^[m] x + c [MOD 2 ^ n] :=
        Nat.mod_modEq _ _
      have hgeom : geom a (m + 1) = a * geom a m + 1 := by
        unfold geom
        rw [sum_range_succ', mul_sum]
        exact congrArg (· + 1) (sum_congr rfl fun i _ => pow_succ' a i)
      refine hstep.trans (((ih.mul_left a).add_right c).trans ?_)
      rw [hgeom]
      exact congrArg (· % 2 ^ n) (by ring)

theorem iterate_next_lt (hx : x < 2 ^ n) (m : ℕ) : (next a c n)^[m] x < 2 ^ n := by
  cases m with
  | zero => exact hx
  | succ m =>
      rw [iterate_succ_apply']
      exact Nat.mod_lt _ (Nat.two_pow_pos n)

/-- A seed comes back exactly after the multiples of `2 ^ n` steps. -/
theorem isPeriodicPt_next (ha : a % 4 = 1) (hc : c % 2 = 1) (hx : x < 2 ^ n) (m : ℕ) :
    IsPeriodicPt (next a c n) m x ↔ 2 ^ n ∣ m := by
  obtain ⟨b, rfl⟩ : ∃ b, a = b + 1 := ⟨a - 1, by omega⟩
  have hsum : (b + 1) ^ m * x + geom (b + 1) m * c = x + geom (b + 1) m * (b * x + c) := by
    rw [← geom_sum_mul_add b m, ← geom]
    ring
  have hodd : (b * x + c) % 2 = 1 := by
    have hb : b % 2 = 0 := by omega
    rw [Nat.add_mod, Nat.mul_mod, hb, hc]
    simp
  have hco : Nat.Coprime (2 ^ n) (b * x + c) :=
    Nat.Coprime.pow_left n (Nat.coprime_two_left.mpr (Nat.odd_iff.mpr hodd))
  have hiter := hsum ▸ iterate_next (b + 1) c n x m
  have hmod : IsPeriodicPt (next (b + 1) c n) m x ↔
      x + geom (b + 1) m * (b * x + c) ≡ x [MOD 2 ^ n] := by
    refine ⟨fun h => hiter.symm.trans (congrArg (· % 2 ^ n) h), fun h => ?_⟩
    exact (hiter.trans h).eq_of_lt_of_lt (iterate_next_lt hx m) hx
  rw [hmod, Nat.ModEq.comm, Nat.modEq_iff_dvd' (Nat.le_add_right _ _), Nat.add_sub_cancel_left,
    hco.dvd_mul_right, two_pow_dvd_geom ha]

/-- **Full period.** -/
theorem minimalPeriod_next (ha : a % 4 = 1) (hc : c % 2 = 1) (hx : x < 2 ^ n) :
    minimalPeriod (next a c n) x = 2 ^ n := by
  refine Nat.dvd_antisymm ?_ ?_
  · rw [← isPeriodicPt_iff_minimalPeriod_dvd, isPeriodicPt_next ha hc hx]
  · rw [← isPeriodicPt_next ha hc hx]
    exact isPeriodicPt_minimalPeriod _ _

/-- No seed comes twice in `2 ^ n` steps in a row. -/
theorem injOn_iterate_next (ha : a % 4 = 1) (hc : c % 2 = 1) (hx : x < 2 ^ n) (start : ℕ) :
    Set.InjOn ((next a c n)^[·] x) (Set.Ico start (start + 2 ^ n)) := by
  have hle : ∀ i j, i ≤ j → j - i < 2 ^ n → (next a c n)^[i] x = (next a c n)^[j] x → i = j := by
    intro i j hij hlt hsame
    have hback : IsPeriodicPt (next a c n) (j - i) ((next a c n)^[i] x) := by
      rw [IsPeriodicPt, IsFixedPt, ← iterate_add_apply, Nat.sub_add_cancel hij]
      exact hsame.symm
    have hdvd := (isPeriodicPt_next ha hc (iterate_next_lt hx i) (j - i)).mp hback
    have hzero := Nat.eq_zero_of_dvd_of_lt hdvd hlt
    omega
  rintro i ⟨hi, hi'⟩ j ⟨hj, hj'⟩ hsame
  rcases Nat.le_total i j with hij | hji
  · exact hle i j hij (by omega) hsame
  · exact (hle j i hji (by omega) hsame.symm).symm

/-! ## Counting along an orbit -/

/-- An orbit as long as the set it stays in meets every element once. -/
theorem card_filter_iterate {α : Type*} [DecidableEq α] {f : α → α} {s : Finset α} {y : α}
    (hs : ∀ i, f^[i] y ∈ s) (hperiod : minimalPeriod f y = s.card) (P : α → Prop) [DecidablePred P] :
    ((range s.card).filter fun i => P (f^[i] y)).card = (s.filter P).card := by
  have hinj : Set.InjOn (f^[·] y) (range s.card) := by
    rw [← hperiod, coe_range]
    exact iterate_injOn_Iio_minimalPeriod
  have himage : (range s.card).image (f^[·] y) = s := by
    refine eq_of_subset_of_card_le (image_subset_iff.mpr fun i _ => hs i) ?_
    rw [card_image_of_injOn hinj, card_range]
  calc ((range s.card).filter fun i => P (f^[i] y)).card
      = (((range s.card).filter fun i => P (f^[i] y)).image (f^[·] y)).card :=
        (card_image_of_injOn (hinj.mono (filter_subset _ _))).symm
    _ = (((range s.card).image (f^[·] y)).filter P).card := by rw [filter_image]
    _ = (s.filter P).card := by rw [himage]

/-- A full period has as many seeds with a property as there are numbers with it. -/
theorem card_filter_next (ha : a % 4 = 1) (hc : c % 2 = 1) {y : ℕ} (hy : y < 2 ^ n) (P : ℕ → Prop)
    [DecidablePred P] :
    ((range (2 ^ n)).filter fun i => P ((next a c n)^[i] y)).card = ((range (2 ^ n)).filter P).card := by
  have hcard := card_filter_iterate (fun i => mem_range.mpr (iterate_next_lt hy i))
    ((minimalPeriod_next ha hc hy).trans (card_range _).symm) P
  rwa [card_range] at hcard

end Congruential
