import Workload.Lib.Sums
import Workload.Lib.Trace
import Workload.Model.Timer
import Mathlib.Data.List.Pairwise
import Mathlib.Tactic.Linarith

/-!
# `Correctness.Timer` — the clock between its polls

Each poll adds its own quotient and forgets the remainder. So the time stamp is a sum of quotients, and what it
misses is what the remainders add up to.

* **`clock_exact`** — the time stamp advances by the time that passed, exactly when the remainders of the polls
  stay below one millisecond together.
* `check_timer_iff` — a timer goes off when the quotients reach its timeout; `polled_each_tick` — one whose polls
  are less than a millisecond apart never does.
-/

namespace Workload

open Trace

/-- The ticks between the polls, each a thousandfold. -/
def scaled (clock : Int) : List Int → List Nat
  | [] => []
  | c :: clocks => (1000 * (c - clock)).toNat :: scaled c clocks

/-- The polls of a run, a first one at `clock`: none fails, none goes back, and the time fits. -/
structure Polls (clock : Int) (clocks : List Int) : Prop where
  mono : (clock :: clocks).Pairwise (· ≤ ·)
  noFail : ∀ c ∈ clock :: clocks, c ≠ -1
  fits : 1000 * (clocks.getLastD clock - clock) < 2 ^ 64

theorem Polls.le_last {clock : Int} {clocks : List Int} (h : Polls clock clocks) :
    clock ≤ clocks.getLastD clock := by
  rcases List.mem_cons.mp (List.getLastD_mem_cons (l := clocks) (a := clock)) with heq | hmem
  · exact heq.symm.le
  · exact (List.pairwise_cons.mp h.mono).1 _ hmem

theorem Polls.tail {clock c : Int} {clocks : List Int} (h : Polls clock (c :: clocks)) :
    clock ≤ c ∧ Polls c clocks ∧ 1000 * (c - clock) < 2 ^ 64 := by
  obtain ⟨hfirst, hmono⟩ := List.pairwise_cons.mp h.mono
  have hle : clock ≤ c := hfirst c List.mem_cons_self
  have hfits := h.fits
  rw [List.getLastD_cons] at hfits
  have htail : Polls c clocks := by
    refine ⟨hmono, fun d hd => h.noFail d (List.mem_cons_of_mem _ hd), ?_⟩
    omega
  have hlast := htail.le_last
  exact ⟨hle, htail, by omega⟩

/-- The distances add up to the whole. -/
theorem Polls.sum_scaled {clock : Int} {clocks : List Int} (h : Polls clock clocks) :
    ((scaled clock clocks).sum : Int) = 1000 * (clocks.getLastD clock - clock) := by
  induction clocks generalizing clock with
  | nil => simp [scaled]
  | cons c clocks ih =>
      obtain ⟨hle, htail, -⟩ := h.tail
      rw [scaled, List.sum_cons, Nat.cast_add, ih htail, List.getLastD_cons]
      omega

/-! ## Polls of a calibrated timer -/

section Calibrated

variable {tick clock : Int} {timer : Timer}

/-- The timer knows its rate. -/
structure Calibrated (tick : Int) (timer : Timer) : Prop where
  pos : 0 < tick
  long : tick < 2 ^ 63
  clockTick : timer.clockTick = tick
  timeStamp : timer.timeStamp < 2 ^ 64

theorem Calibrated.poll (h : Calibrated tick timer) (sysconf : Int) {c : Int} (hc : c ≠ -1)
    (hle : timer.prevClock ≤ c) (hfits : 1000 * (c - timer.prevClock) < 2 ^ 64) :
    workloadTimeStampMsecPrivate sysconf timer c = { timer with
      timeStamp := add64 timer.timeStamp ((1000 * (c - timer.prevClock)).toNat / tick.toNat)
      prevClock := c } := by
  obtain ⟨hpos, hlong, htick, -⟩ := h
  have hsize : toSize timer.clockTick = tick.toNat := by
    unfold toSize
    rw [htick]
    omega
  have hscaled : toSize (c - timer.prevClock) * 1000 % 2 ^ 64 = (1000 * (c - timer.prevClock)).toNat := by
    unfold toSize
    omega
  unfold workloadTimeStampMsecPrivate
  -- the rate is known, so `sysconf` is not asked again
  rw [if_neg hc, if_neg (by omega), clockToUpscale, hscaled, hsize]

/-- The first poll of a new timer finds out its rate. -/
theorem poll_fresh (hpos : 0 < tick) (hfresh : timer.clockTick ≤ 0) (hc : clock ≠ -1) :
    workloadTimeStampMsecPrivate tick timer clock =
      { timer with clockTick := tick, prevClock := clock, timeStamp := timer.timeStamp % 2 ^ 64 } := by
  unfold workloadTimeStampMsecPrivate
  dsimp only
  rw [if_neg hc, if_pos hfresh, if_neg (not_le.mpr hpos)]
  simp [clockToUpscale, toSize, add64]

/-- **A run of polls** adds the quotients. -/
theorem Calibrated.run {sysconf : Int} {clocks : List Int} (h : Calibrated tick timer)
    (hpolls : Polls timer.prevClock clocks) :
    Calibrated tick (exec (workloadTimeStampMsecPrivate sysconf) timer clocks) ∧
      (exec (workloadTimeStampMsecPrivate sysconf) timer clocks).timeStamp =
        add64 timer.timeStamp ((scaled timer.prevClock clocks).map (· / tick.toNat)).sum := by
  generalize hprev : timer.prevClock = prev at hpolls
  induction clocks generalizing timer prev with
  | nil => exact ⟨h, (Nat.mod_eq_of_lt h.timeStamp).symm⟩
  | cons c clocks ih =>
      obtain ⟨hle, htail, hfits⟩ := hpolls.tail
      have hc := hpolls.noFail c (List.mem_cons_of_mem _ List.mem_cons_self)
      subst hprev
      rw [exec_cons, h.poll sysconf hc hle hfits]
      have hnext : Calibrated tick { timer with
          timeStamp := add64 timer.timeStamp ((1000 * (c - timer.prevClock)).toNat / tick.toNat)
          prevClock := c } := ⟨h.pos, h.long, h.clockTick, Nat.mod_lt _ (Nat.two_pow_pos 64)⟩
      obtain ⟨hcal, hsum⟩ := ih hnext c rfl htail
      refine ⟨hcal, hsum.trans ?_⟩
      rw [scaled, List.map_cons, List.sum_cons, add64, add64, Nat.mod_add_mod, Nat.add_assoc, ← add64]

end Calibrated

/-! ## The clock -/

/-- The time stamp is the sum of the quotients of the polls. -/
theorem run_fresh {tick : Int} (hpos : 0 < tick) (hlong : tick < 2 ^ 63) {timer : Timer}
    (hfresh : timer.clockTick ≤ 0) {clock : Int} {clocks : List Int} (hpolls : Polls clock clocks) :
    (exec (workloadTimeStampMsecPrivate tick) timer (clock :: clocks)).timeStamp =
      add64 timer.timeStamp ((scaled clock clocks).map (· / tick.toNat)).sum := by
  have hlt : timer.timeStamp % 2 ^ 64 < 2 ^ 64 := Nat.mod_lt _ (Nat.two_pow_pos 64)
  rw [exec_cons, poll_fresh hpos hfresh (hpolls.noFail clock List.mem_cons_self)]
  have hcal : Calibrated tick
      { timer with clockTick := tick, prevClock := clock, timeStamp := timer.timeStamp % 2 ^ 64 } :=
    ⟨hpos, hlong, rfl, hlt⟩
  rw [(hcal.run hpolls).2]
  exact Nat.mod_add_mod _ _ _

theorem Polls.quotient {tick : Int} (hpos : 0 < tick) {clock : Int} {clocks : List Int}
    (h : Polls clock clocks) :
    (1000 * (clocks.getLastD clock - clock) / tick).toNat = (scaled clock clocks).sum / tick.toNat := by
  rw [← h.sum_scaled, ← Int.toNat_of_nonneg hpos.le, ← Int.natCast_ediv, Int.toNat_natCast, Int.toNat_natCast]

/-- **The clock is exact** exactly when the remainders stay below a millisecond together. -/
theorem clock_exact {tick : Int} (hpos : 0 < tick) (hlong : tick < 2 ^ 63) {timer : Timer}
    (hfresh : timer.clockTick ≤ 0) {clock : Int} {clocks : List Int} (hpolls : Polls clock clocks) :
    (exec (workloadTimeStampMsecPrivate tick) timer (clock :: clocks)).timeStamp =
        add64 timer.timeStamp (1000 * (clocks.getLastD clock - clock) / tick).toNat ↔
      ((scaled clock clocks).map (· % tick.toNat)).sum < tick.toNat := by
  have htick : 0 < tick.toNat := by omega
  have hsum := hpolls.sum_scaled
  have hfits := hpolls.fits
  -- neither side reaches the modulus
  have hle := Sums.sum_div_le htick (scaled clock clocks)
  have hlt : (scaled clock clocks).sum / tick.toNat < 2 ^ 64 :=
    (Nat.div_le_self _ _).trans_lt (by omega)
  -- the sum of the quotients is the quotient of the sum exactly when the remainders stay below a tick
  rw [run_fresh hpos hlong hfresh hpolls, hpolls.quotient hpos, ← Sums.sum_div_eq_iff htick]
  unfold add64
  omega

/-- At 1024 ticks a second, polled after 128 ticks, after one more, and after 128 again: a remainder of 1000. -/
theorem clock_exact_small :
    (exec (workloadTimeStampMsecPrivate 1024) defWorkloadInitTimer [7, 135, 136, 264]).timeStamp =
        add64 0 (1000 * (264 - 7) / 1024 : Int).toNat ↔
      ((scaled 7 [135, 136, 264]).map (· % 1024)).sum < 1024 :=
  clock_exact (by decide) (by decide) (by decide) ⟨by decide, by decide, by decide⟩

theorem exists_of_mem_scaled {clock : Int} {clocks : List Int} {x : Nat} (hx : x ∈ scaled clock clocks) :
    ∃ d, x = 1000 * d := by
  induction clocks generalizing clock with
  | nil => exact absurd hx List.not_mem_nil
  | cons c clocks ih =>
      rcases List.mem_cons.mp hx with rfl | hx
      · exact ⟨(c - clock).toNat, by omega⟩
      · exact ih hx

/-- A rate that divides a thousand leaves no remainder, however often the clock is polled. -/
theorem clock_exact_of_dvd {tick : Nat} (hpos : 0 < tick) (hdvd : tick ∣ 1000) {timer : Timer}
    (hfresh : timer.clockTick ≤ 0) {clock : Int} {clocks : List Int} (hpolls : Polls clock clocks) :
    (exec (workloadTimeStampMsecPrivate tick) timer (clock :: clocks)).timeStamp =
      add64 timer.timeStamp (1000 * (clocks.getLastD clock - clock) / tick).toNat := by
  have hle := Nat.le_of_dvd (Nat.succ_pos 999) hdvd
  have hremainders : ((scaled clock clocks).map (· % tick)).sum = 0 := by
    refine Sums.sum_map_zero fun x hx => ?_
    obtain ⟨d, rfl⟩ := exists_of_mem_scaled hx
    exact Nat.mod_eq_zero_of_dvd (hdvd.mul_right d)
  have hsum := (Sums.sum_div_eq_iff hpos (scaled clock clocks)).mpr (hremainders ▸ hpos)
  rw [run_fresh (Int.natCast_pos.mpr hpos) (by omega) hfresh hpolls, hpolls.quotient (Int.natCast_pos.mpr hpos),
    Int.toNat_natCast, hsum]

/-- **The remainders are lost**: two polls a tick apart, of 1024 a second, and the clock stands still. -/
theorem clock_stands_still :
    (exec (workloadTimeStampMsecPrivate 1024) defWorkloadInitTimer [0, 1, 2]).timeStamp = 0 ∧
      add64 0 (1000 * (2 - 0) / 1024 : Int).toNat = 1 := by
  decide

/-! ## Timers -/

/-- A check of a timer. -/
def checkTimer (sysconf : Int) (timer : Timer) (clock : Int) : Timer :=
  (workloadCheckTimerEx sysconf timer clock).2.2

theorem checkTimer_eq (sysconf : Int) (timer : Timer) (clock : Int) :
    checkTimer sysconf timer clock = { workloadTimeStampMsecPrivate sysconf timer clock with
      duration := sub64 (workloadTimeStampMsecPrivate sysconf timer clock).timeStamp
        (workloadTimeStampMsecPrivate sysconf timer clock).startTimeStamp } := by
  unfold checkTimer workloadCheckTimerEx
  dsimp only
  split_ifs <;> rfl

/-- The clock does not look at the duration. -/
theorem private_duration (sysconf : Int) (timer : Timer) (duration : Nat) (clock : Int) :
    workloadTimeStampMsecPrivate sysconf { timer with duration := duration } clock =
      { workloadTimeStampMsecPrivate sysconf timer clock with duration := duration } := by
  unfold workloadTimeStampMsecPrivate
  dsimp only
  split_ifs <;> rfl

/-- Checks are polls. -/
theorem exec_checkTimer (sysconf : Int) (timer : Timer) (duration : Nat) (clocks : List Int) :
    ∃ d, exec (checkTimer sysconf) { timer with duration := duration } clocks =
      { exec (workloadTimeStampMsecPrivate sysconf) timer clocks with duration := d } := by
  induction clocks generalizing timer duration with
  | nil => exact ⟨duration, rfl⟩
  | cons c clocks ih =>
      rw [exec_cons, exec_cons, checkTimer_eq, private_duration]
      exact ih (workloadTimeStampMsecPrivate sysconf timer c) _

theorem private_frame (sysconf : Int) (timer : Timer) (clocks : List Int) :
    (exec (workloadTimeStampMsecPrivate sysconf) timer clocks).startTimeStamp = timer.startTimeStamp ∧
      (exec (workloadTimeStampMsecPrivate sysconf) timer clocks).timeout = timer.timeout := by
  induction clocks generalizing timer with
  | nil => exact ⟨rfl, rfl⟩
  | cons c clocks ih =>
      have hstep : (workloadTimeStampMsecPrivate sysconf timer c).startTimeStamp = timer.startTimeStamp ∧
          (workloadTimeStampMsecPrivate sysconf timer c).timeout = timer.timeout := by
        unfold workloadTimeStampMsecPrivate
        dsimp only
        split_ifs <;> exact ⟨rfl, rfl⟩
      rw [exec_cons, (ih _).1, (ih _).2]
      exact hstep

/-- A timer that has just been started. -/
theorem initTimer_eq {tick clock : Int} (hpos : 0 < tick) (hclock : clock ≠ -1) (timeout : Nat) :
    workloadInitTimer tick clock timeout = ⟨tick, clock, 0, 0, timeout, 0⟩ := by
  unfold workloadInitTimer workloadSetTimer
  rw [poll_fresh hpos (by decide) hclock]
  rfl

/-- **When a timer goes off**: as soon as the quotients of its polls reach the timeout. -/
theorem check_timer_iff {tick : Int} (hpos : 0 < tick) (hlong : tick < 2 ^ 63) {clock c : Int}
    {clocks : List Int} (hpolls : Polls clock (clocks ++ [c])) (timeout : Nat) :
    (workloadCheckTimerEx tick (exec (checkTimer tick) (workloadInitTimer tick clock timeout) clocks) c).1 =
        true ↔ timeout ≤ ((scaled clock (clocks ++ [c])).map (· / tick.toNat)).sum := by
  have hcal : Calibrated tick ⟨tick, clock, 0, 0, timeout, 0⟩ := ⟨hpos, hlong, rfl, Nat.two_pow_pos 64⟩
  obtain ⟨-, hstamp⟩ := @Calibrated.run tick _ tick _ hcal hpolls
  obtain ⟨hstart, htimeout⟩ := private_frame tick ⟨tick, clock, 0, 0, timeout, 0⟩ (clocks ++ [c])
  obtain ⟨d, hd⟩ := exec_checkTimer tick ⟨tick, clock, 0, 0, timeout, 0⟩ 0 clocks
  rw [exec_append, exec_cons, exec_nil] at hstamp hstart htimeout
  -- the quotients stay below the modulus
  have hlt : ((scaled clock (clocks ++ [c])).map (· / tick.toNat)).sum < 2 ^ 64 := by
    have hle := Sums.sum_div_le (show 0 < tick.toNat by omega) (scaled clock (clocks ++ [c]))
    have hdiv := Nat.div_le_self (scaled clock (clocks ++ [c])).sum tick.toNat
    have hsum := hpolls.sum_scaled
    have hfits := hpolls.fits
    omega
  have hduration : ∀ n < 2 ^ 64, sub64 (add64 0 n) 0 = n := by
    intro n hn
    unfold sub64 add64
    omega
  rw [initTimer_eq hpos (hpolls.noFail clock List.mem_cons_self), hd]
  unfold workloadCheckTimerEx
  rw [private_duration]
  dsimp only
  rw [hstamp, hstart, htimeout, hduration _ hlt]
  by_cases h : timeout ≤ ((scaled clock (clocks ++ [c])).map (· / tick.toNat)).sum
  · rw [if_pos h]
    exact iff_of_true rfl h
  · rw [if_neg h]
    exact iff_of_false Bool.false_ne_true h

/-- **A busy wait that never ends**: between any two polls there is less than a millisecond. -/
theorem polled_each_tick {tick : Int} (hpos : 0 < tick) (hlong : tick < 2 ^ 63) {clock c : Int}
    {clocks : List Int} (hpolls : Polls clock (clocks ++ [c]))
    (hclose : ∀ x ∈ scaled clock (clocks ++ [c]), x < tick.toNat) {timeout : Nat} (htimeout : 0 < timeout) :
    (workloadCheckTimerEx tick (exec (checkTimer tick) (workloadInitTimer tick clock timeout) clocks) c).1 =
      false := by
  have hzero : ((scaled clock (clocks ++ [c])).map (· / tick.toNat)).sum = 0 :=
    Sums.sum_map_zero fun x hx => Nat.div_eq_of_lt (hclose x hx)
  have hiff := check_timer_iff hpos hlong hpolls timeout
  rw [hzero] at hiff
  exact Bool.eq_false_iff.mpr fun h => (Nat.not_le.mpr htimeout) (hiff.mp h)

end Workload
