import Workload.Model.Random
import Workload.Correctness.Services
import Workload.Lib.Congruential
import Mathlib.Algebra.BigOperators.Fin
import Mathlib.Algebra.Order.Field.Basic
import Mathlib.Data.Fintype.BigOperators
import Mathlib.Data.Fintype.Fin
import Mathlib.Data.Nat.Digits.Defs
import Mathlib.Data.Nat.Log
import Mathlib.Tactic.FieldSimp

/-!
# `Correctness.Random` — the generator and the draw of a file

A draw halves the range of the files, and both halves keep the middle one when there is one. A left turn has the
weight of the left ratio, a right turn that of the right one, so on a power of two a file is met with the product
along the bits of its index.

* **`random_index_reaches`** — a draw ends after `⌈log₂ n⌉` numbers with one of the `n` files, and any file can
  be drawn.
* **`skew_exact`** — the weights on a power of two.
* `workloadRand_calls` — the calls return the values of one seed, in their order.
* **`rand_full_period`** — the generator meets every seed, and every value twice.
-/

namespace Workload

/-! ## The halving -/

section Halving

variable {sum right fuel k entry count : Nat} {rand rand' : Nat → Nat}

theorem randomIndexLoop_step (hcount : 1 < count) (hsum : sum ≠ 0) :
    randomIndexLoop sum right rand (fuel + 1) k entry count =
      randomIndexLoop sum right rand fuel (k + 1)
        (if rand k % sum < right then entry + count / 2 else entry) (count - count / 2) := by
  rw [randomIndexLoop, if_pos hcount, if_neg hsum, Nat.shiftRight_one]

theorem randomIndexLoop_one (h : count ≤ 1) :
    randomIndexLoop sum right rand fuel k entry count = some (entry, k) := by
  cases fuel <;> rw [randomIndexLoop, if_neg (Nat.not_lt.mpr h)]

theorem clog_halve (hcount : 1 < count) : Nat.clog 2 count = Nat.clog 2 (count - count / 2) + 1 := by
  rw [Nat.clog_of_two_le Nat.one_lt_two hcount]
  have hhalf : (count + 2 - 1) / 2 = count - count / 2 := by omega
  rw [hhalf]

/-- The loop draws once for every halving, and stays in its range. -/
theorem randomIndexLoop_ends (right : Nat) (rand : Nat → Nat) (k entry : Nat) (hsum : sum ≠ 0)
    (hpos : 1 ≤ count) (hfuel : count ≤ fuel + 1) :
    ∃ i, randomIndexLoop sum right rand fuel k entry count = some (i, k + Nat.clog 2 count) ∧
      entry ≤ i ∧ i < entry + count := by
  induction fuel generalizing k entry count with
  | zero =>
      obtain rfl : count = 1 := by omega
      exact ⟨entry, randomIndexLoop_one le_rfl, le_rfl, Nat.lt_succ_self _⟩
  | succ fuel ih =>
      by_cases hcount : 1 < count
      · obtain ⟨i, hi, hlo, hhi⟩ : ∃ i, _ := ih (k + 1)
          (if rand k % sum < right then entry + count / 2 else entry)
          (show 1 ≤ count - count / 2 by omega) (by omega)
        refine ⟨i, ?_, ?_, ?_⟩
        · rw [randomIndexLoop_step hcount hsum, hi, clog_halve hcount]
          congr 2
          omega
        · split_ifs at hlo <;> omega
        · split_ifs at hhi <;> omega
      · obtain rfl : count = 1 := by omega
        exact ⟨entry, randomIndexLoop_one le_rfl, le_rfl, Nat.lt_succ_self _⟩

/-- The loop reads no draw before the current one. -/
theorem randomIndexLoop_congr (h : ∀ j, k ≤ j → rand j = rand' j) :
    randomIndexLoop sum right rand fuel k entry count = randomIndexLoop sum right rand' fuel k entry count := by
  induction fuel generalizing k entry count with
  | zero =>
      rw [randomIndexLoop, randomIndexLoop]
  | succ fuel ih =>
      rw [randomIndexLoop, randomIndexLoop, h k le_rfl, ih fun j hj => h j (Nat.le_of_succ_le hj)]

/-- Draws of `0` and of the right ratio steer the loop to any index of its range. -/
theorem randomIndexLoop_reaches (k : Nat) (hright : 0 < right) (hsum : right < sum)
    (hfuel : count ≤ fuel + 1) {i : Nat} (hlo : entry ≤ i) (hhi : i < entry + count) :
    ∃ rand : Nat → Nat, (∀ j, rand j ≤ right) ∧
      (randomIndexLoop sum right rand fuel k entry count).map Prod.fst = some i := by
  induction fuel generalizing k entry count with
  | zero =>
      obtain rfl : count = 1 := by omega
      obtain rfl : i = entry := by omega
      exact ⟨fun _ => 0, fun _ => Nat.zero_le _, by rw [randomIndexLoop_one le_rfl]; rfl⟩
  | succ fuel ih =>
      by_cases hcount : 1 < count
      · have hsum0 : sum ≠ 0 := by omega
        -- the turn towards `i`, and the draw that takes it
        obtain ⟨v, hv, hlo', hhi'⟩ : ∃ v ≤ right,
            (if v % sum < right then entry + count / 2 else entry) ≤ i ∧
              i < (if v % sum < right then entry + count / 2 else entry) + (count - count / 2) := by
          by_cases hturn : entry + count / 2 ≤ i
          · refine ⟨0, Nat.zero_le _, ?_⟩
            rw [Nat.zero_mod, if_pos hright]
            omega
          · refine ⟨right, le_rfl, ?_⟩
            rw [Nat.mod_eq_of_lt hsum, if_neg (lt_irrefl _)]
            omega
        obtain ⟨rand, hrand, hi⟩ := ih (k + 1) (by omega) hlo' hhi'
        refine ⟨Function.update rand k v, fun j => ?_, ?_⟩
        · by_cases hj : j = k
          · rw [hj, Function.update_self]
            exact hv
          · rw [Function.update_of_ne hj]
            exact hrand j
        · rw [randomIndexLoop_step hcount hsum0, Function.update_self, ← hi]
          refine congrArg _ (randomIndexLoop_congr fun j hj => ?_)
          exact Function.update_of_ne (by omega) _ _
      · obtain rfl : count = 1 := by omega
        obtain rfl : i = entry := by omega
        exact ⟨fun _ => 0, fun _ => Nat.zero_le _, by rw [randomIndexLoop_one le_rfl]; rfl⟩

end Halving

/-- **Every draw ends, and every file can be drawn.** -/
theorem random_index_reaches {s : State} (hcount : 1 ≤ s.fileCount) (hleft : 1 ≤ s.cfg.leftRatio)
    (hright : 1 ≤ s.cfg.rightRatio) (hsum : s.cfg.leftRatio + s.cfg.rightRatio ≤ 2 ^ 31) :
    (∀ rand : Nat → Nat, ∃ i draws, accessRandomIndex s rand = some (i, draws) ∧
        i < s.fileCount ∧ draws ≤ Nat.clog 2 s.fileCount) ∧
      ∀ i < s.fileCount, ∃ rand : Nat → Nat, (∀ k, rand k < 2 ^ 31) ∧
        (accessRandomIndex s rand).map Prod.fst = some i := by
  have hmod : accessRandomSum s = s.cfg.leftRatio + s.cfg.rightRatio := Nat.mod_eq_of_lt (by omega)
  constructor
  · intro rand
    obtain ⟨i, hi, -, hlt⟩ := randomIndexLoop_ends s.cfg.rightRatio rand 0 0
      (show accessRandomSum s ≠ 0 by omega) hcount (Nat.le_succ _)
    exact ⟨i, _, hi, by omega, by omega⟩
  · intro i hi
    obtain ⟨rand, hrand, hindex⟩ := randomIndexLoop_reaches 0 hright
      (show s.cfg.rightRatio < accessRandomSum s by omega) (Nat.le_succ _) (Nat.zero_le i)
      (show i < 0 + s.fileCount by omega)
    exact ⟨rand, fun k => (hrand k).trans_lt (by omega), hindex⟩

/-- Two files and the ratio 1 to 1. -/
theorem small_ratios : smallPrepared.fileCount = 2 ^ 1 ∧ smallPrepared.cfg.leftRatio = 1 ∧
    smallPrepared.cfg.rightRatio = 1 := by
  unfold smallPrepared
  decide +kernel

theorem random_index_reaches_small :
    (∀ rand : Nat → Nat, ∃ i draws, accessRandomIndex smallPrepared rand = some (i, draws) ∧
        i < smallPrepared.fileCount ∧ draws ≤ Nat.clog 2 smallPrepared.fileCount) ∧
      ∀ i < smallPrepared.fileCount, ∃ rand : Nat → Nat, (∀ k, rand k < 2 ^ 31) ∧
        (accessRandomIndex smallPrepared rand).map Prod.fst = some i := by
  obtain ⟨hcount, hleft, hright⟩ := small_ratios
  exact random_index_reaches (by omega) (by omega) (by omega) (by omega)

/-! ## The skew -/

/-- The number of ones in the binary expansion. -/
def popcount (i : Nat) : Nat := (Nat.digits 2 i).sum

theorem popcount_eq (i : Nat) : popcount i = i % 2 + popcount (i / 2) := by
  unfold popcount
  rcases Nat.eq_zero_or_pos i with rfl | hi
  · rfl
  · rw [Nat.digits_def' Nat.one_lt_two hi, List.sum_cons]

theorem popcount_two_pow_add {k j : Nat} (hj : j < 2 ^ k) : popcount (2 ^ k + j) = popcount j + 1 := by
  induction k generalizing j with
  | zero =>
      obtain rfl : j = 0 := by omega
      rfl
  | succ k ih =>
      have hmod : (2 ^ (k + 1) + j) % 2 = j % 2 := by omega
      have hdiv : (2 ^ (k + 1) + j) / 2 = 2 ^ k + j / 2 := by omega
      rw [popcount_eq, hmod, hdiv, ih (by omega), popcount_eq j]
      omega

theorem popcount_le {k i : Nat} (hi : i < 2 ^ k) : popcount i ≤ k := by
  induction k generalizing i with
  | zero =>
      obtain rfl : i = 0 := by omega
      exact le_rfl
  | succ k ih =>
      have hhalf := ih (i := i / 2) (by omega)
      rw [popcount_eq]
      omega

/-- A vector of draws, as what `workload_rand` returns call by call. -/
def drawn {k m : Nat} (draws : Fin k → Fin m) (j : Nat) : Nat := if h : j < k then draws ⟨j, h⟩ else 0

theorem drawn_cons_zero {k m : Nat} (a : Fin m) (draws : Fin k → Fin m) :
    drawn (Fin.cons a draws : Fin (k + 1) → Fin m) 0 = a := rfl

theorem drawn_cons_succ {k m : Nat} (a : Fin m) (draws : Fin k → Fin m) (j : Nat) :
    drawn (Fin.cons a draws : Fin (k + 1) → Fin m) (j + 1) = drawn draws j := by
  unfold drawn
  by_cases hj : j < k
  · rw [dif_pos (Nat.succ_lt_succ hj), dif_pos hj]
    rfl
  · rw [dif_neg (by omega), dif_neg hj]

/-- The draws count from the current one. -/
theorem randomIndexLoop_shift {sum right fuel k entry count : Nat} (rand : Nat → Nat) :
    (randomIndexLoop sum right rand fuel (k + 1) entry count).map Prod.fst =
      (randomIndexLoop sum right (fun j => rand (j + 1)) fuel k entry count).map Prod.fst := by
  induction fuel generalizing k entry count with
  | zero =>
      rw [randomIndexLoop, randomIndexLoop]
      split_ifs <;> rfl
  | succ fuel ih =>
      rw [randomIndexLoop, randomIndexLoop]
      split_ifs
      · rfl
      · exact ih
      · rfl

/-- A count of vectors by their first entry. -/
theorem card_filter_cons {k : Nat} {α : Type} [Fintype α] (P : (Fin (k + 1) → α) → Prop) [DecidablePred P] :
    (Finset.univ.filter P).card =
      ∑ a : α, (Finset.univ.filter fun draws : Fin k → α => P (Fin.cons a draws)).card := by
  simp only [Finset.card_filter]
  rw [← (Fin.consEquiv fun _ => α).sum_comp, Fintype.sum_prod_type]
  rfl

theorem sum_turns (left right x y : Nat) :
    ∑ a : Fin (left + right), (if a.val < right then x else y) = right * x + left * y := by
  rw [Finset.sum_ite, Finset.sum_const, Finset.sum_const, Fin.card_filter_val_lt]
  have hcompl :=
    Finset.card_filter_add_card_filter_not (s := Finset.univ) fun a : Fin (left + right) => a.val < right
  rw [Fin.card_filter_val_lt, Finset.card_univ, Fintype.card_fin] at hcompl
  rw [Nat.min_eq_right (Nat.le_add_left _ _)] at hcompl ⊢
  rw [show (Finset.univ.filter fun a : Fin (left + right) => ¬ a.val < right).card = left by omega]
  rfl

section Skew

variable {left right : Nat}

/-- The vectors of draws lead the loop over `2 ^ k` files from `entry` on to `i`. -/
def LeadsTo (left right fuel k entry i : Nat) (draws : Fin k → Fin (left + right)) : Prop :=
  (randomIndexLoop (left + right) right (drawn draws) fuel 0 entry (2 ^ k)).map Prod.fst = some i

instance (fuel k entry i : Nat) : DecidablePred (LeadsTo left right fuel k entry i) :=
  fun _ => inferInstanceAs (Decidable (_ = _))

/-- The first draw turns right or left. -/
theorem leadsTo_cons {fuel k entry i : Nat} (hsum : left + right ≠ 0) (a : Fin (left + right))
    (draws : Fin k → Fin (left + right)) :
    LeadsTo left right (fuel + 1) (k + 1) entry i (Fin.cons a draws) ↔
      if a.val < right then LeadsTo left right fuel k (entry + 2 ^ k) i draws
      else LeadsTo left right fuel k entry i draws := by
  have hcount : 1 < 2 ^ (k + 1) := Nat.one_lt_two_pow (Nat.succ_ne_zero k)
  have hhalf : 2 ^ (k + 1) / 2 = 2 ^ k := by omega
  have hrest : 2 ^ (k + 1) - 2 ^ k = 2 ^ k := by omega
  have htail : (fun j => drawn (Fin.cons a draws : Fin (k + 1) → Fin (left + right)) (j + 1)) = drawn draws :=
    funext (drawn_cons_succ a draws)
  unfold LeadsTo
  rw [randomIndexLoop_step hcount hsum, randomIndexLoop_shift, htail, drawn_cons_zero, hhalf, hrest,
    Nat.mod_eq_of_lt a.isLt]
  split_ifs <;> rfl

theorem card_leadsTo_succ {fuel k entry i : Nat} (hsum : left + right ≠ 0) :
    (Finset.univ.filter (LeadsTo left right (fuel + 1) (k + 1) entry i)).card =
      right * (Finset.univ.filter (LeadsTo left right fuel k (entry + 2 ^ k) i)).card +
        left * (Finset.univ.filter (LeadsTo left right fuel k entry i)).card := by
  -- by the first draw
  rw [card_filter_cons, ← sum_turns]
  refine Finset.sum_congr rfl fun a _ => ?_
  simp only [leadsTo_cons hsum]
  split_ifs <;> rfl

/-- No vector leads out of the range. -/
theorem card_leadsTo_outside {fuel k entry i : Nat} (hsum : left + right ≠ 0) (hfuel : 2 ^ k ≤ fuel + 1)
    (hout : i < entry ∨ entry + 2 ^ k ≤ i) :
    (Finset.univ.filter (LeadsTo left right fuel k entry i)).card = 0 := by
  refine Finset.card_eq_zero.mpr (Finset.filter_eq_empty_iff.mpr fun draws _ hleads => ?_)
  obtain ⟨j, hj, hlo, hhi⟩ := randomIndexLoop_ends right (drawn draws) 0 entry hsum (Nat.one_le_two_pow) hfuel
  unfold LeadsTo at hleads
  rw [hj] at hleads
  obtain rfl : j = i := Option.some.inj hleads
  omega

/-- **The weight of an index**: a factor for each bit. -/
theorem card_leadsTo {fuel k entry i : Nat} (hsum : left + right ≠ 0) (hfuel : 2 ^ k ≤ fuel + 1)
    (hi : i < 2 ^ k) :
    (Finset.univ.filter (LeadsTo left right fuel k entry (entry + i))).card =
      right ^ popcount i * left ^ (k - popcount i) := by
  induction k generalizing fuel entry i with
  | zero =>
      obtain rfl : i = 0 := by omega
      have hall : ∀ draws, LeadsTo left right fuel 0 entry (entry + 0) draws := by
        intro draws
        unfold LeadsTo
        rw [pow_zero, randomIndexLoop_one le_rfl]
        rfl
      rw [Finset.filter_true_of_mem fun draws _ => hall draws]
      simp [popcount]
  | succ k ih =>
      obtain ⟨fuel, rfl⟩ : ∃ n, fuel = n + 1 := ⟨fuel - 1, by
        have hlarge : 1 < 2 ^ (k + 1) := Nat.one_lt_two_pow (Nat.succ_ne_zero k)
        omega⟩
      have hfuel' : 2 ^ k ≤ fuel + 1 := by
        have hpos : 1 ≤ 2 ^ k := Nat.one_le_two_pow
        omega
      rw [card_leadsTo_succ hsum]
      by_cases hhalf : i < 2 ^ k
      · -- the highest bit is off: only left turns lead there
        have hnone : (Finset.univ.filter (LeadsTo left right fuel k (entry + 2 ^ k) (entry + i))).card = 0 :=
          card_leadsTo_outside hsum hfuel' (Or.inl (by omega))
        rw [hnone, ih hfuel' hhalf, Nat.sub_add_comm (popcount_le hhalf)]
        ring
      · -- the highest bit is on: only right turns do
        obtain ⟨j, rfl⟩ : ∃ j, i = 2 ^ k + j := ⟨i - 2 ^ k, by omega⟩
        have hj : j < 2 ^ k := by omega
        have hnone : (Finset.univ.filter (LeadsTo left right fuel k entry (entry + (2 ^ k + j)))).card = 0 :=
          card_leadsTo_outside hsum hfuel' (Or.inr (by omega))
        rw [hnone, ← Nat.add_assoc, ih hfuel' hj, popcount_two_pow_add hj, Nat.add_sub_add_right]
        ring

end Skew

/-- The weight of the upper half, relative to that of the lower one. -/
theorem sum_upper_weights (left right k : Nat) :
    ∑ i ∈ Finset.Ico (2 ^ k) (2 ^ (k + 1)), right ^ popcount i * left ^ (k + 1 - popcount i) =
      right * ∑ j ∈ Finset.range (2 ^ k), right ^ popcount j * left ^ (k - popcount j) := by
  have hlen : 2 ^ (k + 1) - 2 ^ k = 2 ^ k := by
    have hpos := Nat.two_pow_pos k
    omega
  rw [Finset.sum_Ico_eq_sum_range, hlen, Finset.mul_sum]
  refine Finset.sum_congr rfl fun j hj => ?_
  rw [popcount_two_pow_add (Finset.mem_range.mp hj), Nat.add_sub_add_right]
  ring

theorem sum_weights (left right k : Nat) :
    ∑ i ∈ Finset.range (2 ^ k), right ^ popcount i * left ^ (k - popcount i) = (left + right) ^ k := by
  induction k with
  | zero => simp [popcount]
  | succ k ih =>
      have hlower : ∑ i ∈ Finset.range (2 ^ k), right ^ popcount i * left ^ (k + 1 - popcount i) =
          left * (left + right) ^ k := by
        rw [← ih, Finset.mul_sum]
        refine Finset.sum_congr rfl fun i hi => ?_
        rw [Nat.sub_add_comm (popcount_le (Finset.mem_range.mp hi))]
        ring
      rw [← Finset.sum_range_add_sum_Ico _ (Nat.pow_le_pow_right Nat.two_pos (Nat.le_succ k)), hlower,
        sum_upper_weights, ih]
      ring

/-- The number of vectors of `k` reduced draws that make `__workload_access_random_index` return `i`. -/
def vectorsTo (s : State) (k i : Nat) : Nat :=
  (Finset.univ.filter fun draws : Fin k → Fin (s.cfg.leftRatio + s.cfg.rightRatio) =>
    (accessRandomIndex s (drawn draws)).map Prod.fst = some i).card

/-- **The skew on a power of two.** Every index has the product of the ratios along its bits, and the upper half
    of the files the share of the right ratio. -/
theorem skew_exact {s : State} {k : Nat} (hcount : s.fileCount = 2 ^ k) (hleft : 1 ≤ s.cfg.leftRatio)
    (hright : 1 ≤ s.cfg.rightRatio) (hsum : s.cfg.leftRatio + s.cfg.rightRatio < 2 ^ 32) :
    (∀ i < s.fileCount, vectorsTo s k i =
        s.cfg.rightRatio ^ popcount i * s.cfg.leftRatio ^ (k - popcount i)) ∧
      (1 ≤ k → (∑ i ∈ Finset.Ico (s.fileCount / 2) s.fileCount, (vectorsTo s k i : ℚ)) /
          Fintype.card (Fin k → Fin (s.cfg.leftRatio + s.cfg.rightRatio)) =
        s.cfg.rightRatio / (s.cfg.leftRatio + s.cfg.rightRatio)) := by
  have hmod : accessRandomSum s = s.cfg.leftRatio + s.cfg.rightRatio := Nat.mod_eq_of_lt hsum
  have hweight : ∀ i < s.fileCount, vectorsTo s k i =
      s.cfg.rightRatio ^ popcount i * s.cfg.leftRatio ^ (k - popcount i) := by
    intro i hi
    rw [hcount] at hi
    have hne : s.cfg.leftRatio + s.cfg.rightRatio ≠ 0 := by omega
    have hleads := @card_leadsTo s.cfg.leftRatio s.cfg.rightRatio (2 ^ k) k 0 i hne (Nat.le_succ _) hi
    rw [← hleads, Nat.zero_add]
    unfold vectorsTo LeadsTo accessRandomIndex
    rw [hmod, hcount]
    rfl
  refine ⟨hweight, fun hk => ?_⟩
  obtain ⟨k, rfl⟩ : ∃ j, k = j + 1 := ⟨k - 1, by omega⟩
  have hhalf : s.fileCount / 2 = 2 ^ k := by omega
  have hupper : ∑ i ∈ Finset.Ico (s.fileCount / 2) s.fileCount, vectorsTo s (k + 1) i =
      s.cfg.rightRatio * (s.cfg.leftRatio + s.cfg.rightRatio) ^ k := by
    rw [Finset.sum_congr rfl fun i hi => hweight i (Finset.mem_Ico.mp hi).2, hhalf, hcount, sum_upper_weights,
      sum_weights]
  have hpos : (s.cfg.leftRatio + s.cfg.rightRatio : ℚ) ≠ 0 := by
    have hone : (1 : ℚ) ≤ s.cfg.leftRatio := Nat.one_le_cast.mpr hleft
    positivity
  rw [← Nat.cast_sum, hupper, Fintype.card_fun, Fintype.card_fin, Fintype.card_fin]
  push_cast
  rw [pow_succ]
  field_simp

theorem skew_exact_small :
    (∀ i < smallPrepared.fileCount, vectorsTo smallPrepared 1 i =
        smallPrepared.cfg.rightRatio ^ popcount i * smallPrepared.cfg.leftRatio ^ (1 - popcount i)) ∧
      (1 ≤ 1 → (∑ i ∈ Finset.Ico (smallPrepared.fileCount / 2) smallPrepared.fileCount,
            (vectorsTo smallPrepared 1 i : ℚ)) /
          Fintype.card (Fin 1 → Fin (smallPrepared.cfg.leftRatio + smallPrepared.cfg.rightRatio)) =
        smallPrepared.cfg.rightRatio / (smallPrepared.cfg.leftRatio + smallPrepared.cfg.rightRatio)) := by
  obtain ⟨hcount, hleft, hright⟩ := small_ratios
  exact skew_exact hcount (by omega) (by omega) (by omega)

/-! ## The period of the generator -/

open Congruential

theorem toNat_randomizeUpdate (seed : BitVec 32) :
    (workloadRandomizeUpdate seed).toNat = next 0x015a4e35 1 32 seed.toNat := by
  unfold workloadRandomizeUpdate randomizeConstant next
  rw [BitVec.toNat_add, BitVec.toNat_mul]
  simp only [BitVec.toNat_ofNat, Nat.mod_add_mod]
  rw [Nat.mul_comm]

theorem toNat_iterate (seed : BitVec 32) (i : Nat) :
    (workloadRandomizeUpdate^[i] seed).toNat = (next 0x015a4e35 1 32)^[i] seed.toNat :=
  (Function.Semiconj.iterate_right toNat_randomizeUpdate i) seed

/-- The halves of a seed change places. -/
def swapHalves (n : Nat) : Nat := n / 2 ^ 16 + n % 2 ^ 16 * 2 ^ 16

theorem swapHalves_lt {n : Nat} (hn : n < 2 ^ 32) : swapHalves n < 2 ^ 32 := by
  unfold swapHalves
  omega

theorem swapHalves_swapHalves {n : Nat} (hn : n < 2 ^ 32) : swapHalves (swapHalves n) = n := by
  have hhigh : n / 2 ^ 16 < 2 ^ 16 := by omega
  unfold swapHalves
  rw [Nat.add_mul_div_right _ _ (Nat.two_pow_pos 16), Nat.div_eq_of_lt hhigh, Nat.add_mul_mod_self_right,
    Nat.mod_eq_of_lt hhigh]
  omega

/-- The value made of a seed: its halves change places, and the lowest bit goes. -/
theorem randUnlocked_fst (seed : BitVec 32) :
    (randUnlocked seed).1 = (swapHalves (workloadRandomizeUpdate seed).toNat / 2 : Nat) := by
  unfold randUnlocked
  dsimp only
  generalize workloadRandomizeUpdate seed = seed
  have hlt := seed.isLt
  have hrot : ((seed >>> 16 ||| seed <<< 16) >>> 1).toNat = swapHalves seed.toNat / 2 := by
    have hshift : seed.toNat * 2 ^ 16 % 2 ^ 32 = 2 ^ 16 * (seed.toNat % 2 ^ 16) := by omega
    have hhigh : seed.toNat / 2 ^ 16 < 2 ^ 16 := by omega
    rw [BitVec.toNat_ushiftRight, BitVec.toNat_or, BitVec.toNat_ushiftRight, BitVec.toNat_shiftLeft,
      Nat.shiftRight_eq_div_pow, Nat.shiftRight_eq_div_pow, Nat.shiftLeft_eq, hshift, Nat.or_comm,
      ← Nat.two_pow_add_eq_or_of_lt hhigh, swapHalves]
    omega
  have hhalf := swapHalves_lt hlt
  rw [BitVec.toInt_eq_toNat_of_lt (by rw [hrot]; omega), hrot]

theorem randUnlocked_bounds (seed : BitVec 32) : 0 ≤ (randUnlocked seed).1 ∧ (randUnlocked seed).1 < 2 ^ 31 := by
  have hlt := swapHalves_lt (workloadRandomizeUpdate seed).isLt
  rw [randUnlocked_fst]
  omega

/-- Two seeds have the same value. -/
theorem card_seeds_of_value {v : Nat} (hv : v < 2 ^ 31) :
    ((Finset.range (2 ^ 32)).filter fun n => swapHalves n / 2 = v).card = 2 := by
  -- they differ in the bit that goes
  have hpair : ((Finset.range (2 ^ 32)).filter fun n => swapHalves n / 2 = v) =
      {swapHalves (2 * v), swapHalves (2 * v + 1)} := by
    ext n
    rw [Finset.mem_filter, Finset.mem_range, Finset.mem_insert, Finset.mem_singleton]
    constructor
    · rintro ⟨hn, hvalue⟩
      rcases Nat.mod_two_eq_zero_or_one (swapHalves n) with hmod | hmod
      · left
        rw [show 2 * v = swapHalves n by omega, swapHalves_swapHalves hn]
      · right
        rw [show 2 * v + 1 = swapHalves n by omega, swapHalves_swapHalves hn]
    · rintro (rfl | rfl)
      · exact ⟨swapHalves_lt (by omega), by rw [swapHalves_swapHalves (by omega)]; omega⟩
      · exact ⟨swapHalves_lt (by omega), by rw [swapHalves_swapHalves (by omega)]; omega⟩
  have hne : swapHalves (2 * v) ≠ swapHalves (2 * v + 1) := by
    intro hsame
    have hback := congrArg swapHalves hsame
    rw [swapHalves_swapHalves (by omega), swapHalves_swapHalves (by omega)] at hback
    omega
  rw [hpair, Finset.card_pair hne]

/-- The value of call number `i` of `__workload_rand`. -/
def randAt (seed : BitVec 32) (i : Nat) : Int := (randUnlocked ((fun s => (randUnlocked s).2)^[i] seed)).1

/-- The seed the calls start from: that of the generator, or what the first call makes of it. -/
def startSeed (uptime : Option (BitVec 32)) (time : BitVec 32) (g : RandState) : BitVec 32 :=
  if g.seedInit then g.seed else (srandUnlocked uptime time g).seed

/-- The values of successive calls of `workload_rand`, each with the uptime and the time it would seed with. -/
def randCalls : RandState → List (Option (BitVec 32) × BitVec 32) → List Int
  | _, [] => []
  | g, (uptime, time) :: calls =>
      (workloadRand uptime time g).1 :: randCalls (workloadRand uptime time g).2 calls

theorem randAt_zero (seed : BitVec 32) : randAt seed 0 = (randUnlocked seed).1 := by
  rw [randAt, Function.iterate_zero_apply]

theorem randAt_succ (seed : BitVec 32) (i : Nat) : randAt seed (i + 1) = randAt (randUnlocked seed).2 i := by
  rw [randAt, randAt, Function.iterate_succ_apply]

theorem workloadRand_seeded {g : RandState} (hseeded : g.seedInit = true) (uptime : Option (BitVec 32))
    (time : BitVec 32) :
    workloadRand uptime time g = ((randUnlocked g.seed).1, { g with seed := (randUnlocked g.seed).2 }) := by
  unfold workloadRand
  rw [if_pos hseeded]

/-- The first call seeds the generator and goes on. -/
theorem workloadRand_first {g : RandState} (hfirst : ¬ g.seedInit = true) (uptime : Option (BitVec 32))
    (time : BitVec 32) : workloadRand uptime time g = workloadRand uptime time (srandUnlocked uptime time g) := by
  rw [workloadRand_seeded (show (srandUnlocked uptime time g).seedInit = true from rfl)]
  unfold workloadRand
  rw [if_neg hfirst]

theorem randCalls_seeded {g : RandState} (hseeded : g.seedInit = true)
    (calls : List (Option (BitVec 32) × BitVec 32)) :
    randCalls g calls = (List.range calls.length).map (randAt g.seed) := by
  induction calls generalizing g with
  | nil => rfl
  | cons call calls ih =>
      obtain ⟨uptime, time⟩ := call
      have hrest := @ih { g with seed := (randUnlocked g.seed).2 } hseeded
      -- the next call starts from the next seed
      have hnext : (List.range calls.length).map (randAt (randUnlocked g.seed).2) =
          (List.range calls.length).map fun i => randAt g.seed (i + 1) :=
        List.map_congr_left fun i _ => (randAt_succ g.seed i).symm
      rw [randCalls, workloadRand_seeded hseeded, hrest, hnext, List.length_cons, List.range_succ_eq_map,
        List.map_cons, List.map_map, randAt_zero, Function.comp_def]

/-- **The calls of `workload_rand`** return the values of one seed, one after the other, whoever makes them. -/
theorem workloadRand_calls (g : RandState) (uptime : Option (BitVec 32)) (time : BitVec 32)
    (calls : List (Option (BitVec 32) × BitVec 32)) :
    randCalls g ((uptime, time) :: calls) =
        (List.range (calls.length + 1)).map (randAt (startSeed uptime time g)) ∧
      ∀ v ∈ randCalls g ((uptime, time) :: calls), 0 ≤ v ∧ v < 2 ^ 31 := by
  have hvalues : randCalls g ((uptime, time) :: calls) =
      (List.range (calls.length + 1)).map (randAt (startSeed uptime time g)) := by
    by_cases hseeded : g.seedInit = true
    · rw [startSeed, if_pos hseeded]
      exact randCalls_seeded hseeded _
    · have hfirst : randCalls g ((uptime, time) :: calls) =
          randCalls (srandUnlocked uptime time g) ((uptime, time) :: calls) := by
        rw [randCalls, randCalls, workloadRand_first hseeded]
      rw [hfirst, startSeed, if_neg hseeded]
      exact randCalls_seeded rfl _
  refine ⟨hvalues, fun v hv => ?_⟩
  rw [hvalues] at hv
  obtain ⟨i, -, rfl⟩ := List.mem_map.mp hv
  exact randUnlocked_bounds _

/-- **The generator has the full period**, and every value comes twice in it. -/
theorem rand_full_period (seed : BitVec 32) :
    (∀ start, Set.InjOn (workloadRandomizeUpdate^[·] seed) (Set.Ico start (start + 2 ^ 32))) ∧
      (∀ i, workloadRandomizeUpdate^[i + 2 ^ 32] seed = workloadRandomizeUpdate^[i] seed) ∧
      (∀ i, 0 ≤ randAt seed i ∧ randAt seed i < 2 ^ 31) ∧
      ∀ (start : Nat) (v : Int), 0 ≤ v → v < 2 ^ 31 →
        ((Finset.range (2 ^ 32)).filter fun i => randAt seed (start + i) = v).card = 2 := by
  refine ⟨?_, ?_, fun i => randUnlocked_bounds _, ?_⟩
  · intro start i hi j hj hij
    have hsame := congrArg BitVec.toNat hij
    simp only [toNat_iterate] at hsame
    exact injOn_iterate_next (by norm_num) (by norm_num) seed.isLt start hi hj hsame
  · intro i
    refine BitVec.eq_of_toNat_eq ?_
    rw [toNat_iterate, toNat_iterate]
    have hperiod := minimalPeriod_next (a := 0x015a4e35) (c := 1) (by norm_num) (by norm_num) seed.isLt
    rw [← hperiod, Function.iterate_add_minimalPeriod_eq]
  · intro start v hlo hhi
    obtain ⟨v, rfl⟩ := Int.eq_ofNat_of_zero_le hlo
    -- the seeds behind the calls, as an orbit of full length
    have hy : (next 0x015a4e35 1 32)^[start + 1] seed.toNat < 2 ^ 32 := iterate_next_lt seed.isLt _
    have hvalue : ∀ i, randAt seed (start + i) = (v : Int) ↔
        swapHalves ((next 0x015a4e35 1 32)^[i] ((next 0x015a4e35 1 32)^[start + 1] seed.toNat)) / 2 = v := by
      intro i
      have hseed : (workloadRandomizeUpdate (workloadRandomizeUpdate^[start + i] seed)).toNat =
          (next 0x015a4e35 1 32)^[i] ((next 0x015a4e35 1 32)^[start + 1] seed.toNat) := by
        have hsplit : (start + i).succ = i + (start + 1) := by omega
        rw [← Function.iterate_succ_apply' workloadRandomizeUpdate (start + i) seed, toNat_iterate, hsplit,
          Function.iterate_add_apply]
      unfold randAt
      rw [randUnlocked_fst, Int.natCast_inj]
      exact hseed ▸ Iff.rfl
    rw [Finset.filter_congr fun i _ => hvalue i,
      card_filter_next (by norm_num) (by norm_num) hy fun n => swapHalves n / 2 = v]
    exact card_seeds_of_value (by omega)

end Workload
