import Mathlib.Data.Nat.GCD.Basic

/-!
# `Model.Math` — the ratio reduction of `math.c`

`workload_gcm_uint` is Euclid's loop; the model runs it with a bound on the rounds and `gcmLoop_eq` shows
that the bound is never met. `workload_aspect_ratio_uint` divides both values by the result.
-/

namespace Workload

/-- The loop of `workload_gcm_uint`, for at most `fuel` rounds. -/
def gcmLoop : Nat → Nat → Nat → Option Nat
  | 0, _, _ => none
  | fuel + 1, value1, value2 =>
      let temp := value1 % value2
      if temp = 0 then some value2 else gcmLoop fuel value2 temp

/-- `workload_gcm_uint`. -/
def workloadGcmUint (value1 value2 : Nat) : Nat :=
  let (value1, value2) := if value1 < value2 then (value2, value1) else (value1, value2)
  if value2 = 0 then 0 else (gcmLoop value2 value1 value2).getD 0

/-- `workload_aspect_ratio_uint`: the value returned and the two ratios stored. -/
def workloadAspectRatioUint (value1 value2 : Nat) : Nat × Nat × Nat :=
  if value1 = 0 ∨ value2 = 0 then (0, 1, 1)
  else
    let gcm := workloadGcmUint value1 value2
    if gcm = 0 then (0, 1, 1) else (gcm, value1 / gcm, value2 / gcm)

/-- **Euclid's loop ends** within as many rounds as the smaller value, on the greatest common divisor. -/
theorem gcmLoop_eq {fuel value1 value2 : Nat} (hpos : 0 < value2) (hfuel : value2 ≤ fuel) :
    gcmLoop fuel value1 value2 = some (Nat.gcd value1 value2) := by
  induction fuel generalizing value1 value2 with
  | zero => omega
  | succ fuel ih =>
      unfold gcmLoop
      by_cases htemp : value1 % value2 = 0
      · rw [Nat.gcd_comm, Nat.gcd_rec, htemp, Nat.gcd_zero_left]
        simp
      · have hlt : value1 % value2 < value2 := Nat.mod_lt _ hpos
        have hrec : gcmLoop fuel value2 (value1 % value2) = some (Nat.gcd value2 (value1 % value2)) :=
          ih (Nat.pos_of_ne_zero htemp) (by omega)
        simp only [htemp, if_false]
        rw [hrec, Nat.gcd_comm value2, ← Nat.gcd_rec, Nat.gcd_comm]

/-- `workload_gcm_uint` is the greatest common divisor of two non-zero values. -/
theorem workloadGcmUint_eq {value1 value2 : Nat} (h1 : value1 ≠ 0) (h2 : value2 ≠ 0) :
    workloadGcmUint value1 value2 = Nat.gcd value1 value2 := by
  unfold workloadGcmUint
  by_cases hlt : value1 < value2
  · simp only [hlt, if_true, h1, if_false]
    rw [gcmLoop_eq (Nat.pos_of_ne_zero h1) (Nat.le_refl _), Nat.gcd_comm]
    rfl
  · simp only [hlt, if_false, h2]
    rw [gcmLoop_eq (Nat.pos_of_ne_zero h2) (Nat.le_refl _)]
    rfl

/-- Two non-zero values are stored divided by their greatest common divisor. -/
theorem workloadAspectRatioUint_eq {value1 value2 : Nat} (h1 : value1 ≠ 0) (h2 : value2 ≠ 0) :
    workloadAspectRatioUint value1 value2 =
      (Nat.gcd value1 value2, value1 / Nat.gcd value1 value2, value2 / Nat.gcd value1 value2) := by
  have hgcd : Nat.gcd value1 value2 ≠ 0 := Nat.gcd_ne_zero_left h1
  simp only [workloadAspectRatioUint, h1, h2, or_self, if_false, workloadGcmUint_eq h1 h2, hgcd]

/-- A reduced ratio is at least one. -/
theorem one_le_div_gcd {a b : Nat} (h : a ≠ 0) : 1 ≤ a / Nat.gcd a b :=
  Nat.div_pos (Nat.le_of_dvd (Nat.pos_of_ne_zero h) (Nat.gcd_dvd_left a b))
    (Nat.pos_of_ne_zero (Nat.gcd_ne_zero_left h))

end Workload
