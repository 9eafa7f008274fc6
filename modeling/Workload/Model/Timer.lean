import Workload.Model.State

/-!
# `Model.Timer` — `timer.c`

A timer turns the ticks of `times` into milliseconds. Every function takes what `sysconf(_SC_CLK_TCK)` and
`times` return during the call; `-1` is the failure of `times`.
-/

namespace Workload

/-- `workload_timer_t`. -/
structure Timer where
  clockTick : Int
  prevClock : Int
  timeStamp : Nat
  startTimeStamp : Nat
  timeout : Nat
  duration : Nat

/-- `def_workload_init_timer`. -/
def defWorkloadInitTimer : Timer := ⟨0, 0, 0, 1000, 0, 0⟩

/-- The update of the time stamp: the ticks since the last call, in milliseconds. -/
def clockToUpscale (timer : Timer) (clock : Int) : Timer :=
  { timer with
    timeStamp :=
      add64 timer.timeStamp (toSize (clock - timer.prevClock) * 1000 % 2 ^ 64 / toSize timer.clockTick)
    prevClock := clock }

/-- `workload_time_stamp_msec_private`: the timer behind the call, which returns its time stamp. -/
def workloadTimeStampMsecPrivate (sysconf : Int) (timer : Timer) (clock : Int) : Timer :=
  if clock = -1 then timer
  else if timer.clockTick ≤ 0 then
    let timer := { timer with clockTick := sysconf }
    if timer.clockTick ≤ 0 then timer
    else clockToUpscale { timer with prevClock := clock } clock
  else clockToUpscale timer clock

/-- `workload_set_timer`. -/
def workloadSetTimer (sysconf : Int) (timer : Timer) (clock : Int) (timeout : Nat) : Timer :=
  let timer := workloadTimeStampMsecPrivate sysconf timer clock
  { timer with startTimeStamp := timer.timeStamp, timeout := timeout, duration := 0 }

/-- `workload_init_timer`. -/
def workloadInitTimer (sysconf clock : Int) (timeout : Nat) : Timer :=
  workloadSetTimer sysconf defWorkloadInitTimer clock timeout

/-- `workload_check_timer_ex`: the result, `*s_remain` and the timer. -/
def workloadCheckTimerEx (sysconf : Int) (timer : Timer) (clock : Int) : Bool × Nat × Timer :=
  let timer := workloadTimeStampMsecPrivate sysconf timer clock
  let timer := { timer with duration := sub64 timer.timeStamp timer.startTimeStamp }
  if timer.timeout ≤ timer.duration then (true, 0, timer)
  else (false, sub64 timer.timeout timer.duration, timer)

end Workload
