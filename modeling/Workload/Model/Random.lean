import Workload.Model.Control

/-!
# `Model.Random` — `random.c` and the draw of a file

The generator is a seed of 32 bits under a lock; `workload_srand` and the first `workload_rand` mix in what the
system reports. `__workload_access_random_index` halves the range of files until one is left.
-/

namespace Workload

/-! ## The generator -/

/-- `def_workload_randomize_constant` -/
def randomizeConstant : BitVec 32 := 0x015a4e35#32

/-- `workload_randomize_update`. -/
def workloadRandomizeUpdate (seed : BitVec 32) : BitVec 32 := seed * randomizeConstant + 1#32

/-- `g_workload_rand_seed_init` and `g_workload_rand_seed`. -/
structure RandState where
  seedInit : Bool
  seed : BitVec 32

/-- `__workload_srand`, with the uptime that `sysinfo` reports, if it does. -/
def srandUnlocked (uptime : Option (BitVec 32)) (value : BitVec 32) (g : RandState) : RandState :=
  let seed := g.seed + uptime.getD 0#32
  ⟨true, workloadRandomizeUpdate (seed + value)⟩

/-- `__workload_rand`: the value returned and the new seed. -/
def randUnlocked (seed : BitVec 32) : Int × BitVec 32 :=
  let seed := workloadRandomizeUpdate seed
  ((((seed >>> 16) ||| (seed <<< 16)) >>> 1).toInt, seed)

/-- `workload_rand`; the first call seeds the generator with `time`. -/
def workloadRand (uptime : Option (BitVec 32)) (time : BitVec 32) (g : RandState) : Int × RandState :=
  let g := if g.seedInit then g else srandUnlocked uptime time g
  let (result, seed) := randUnlocked g.seed
  (result, { g with seed := seed })

/-! ## The draw of a file -/

/-- The loop of `__workload_access_random_index`, with the draws from number `k` on: the index and the number
    of draws made. Undefined for a zero divisor. -/
def randomIndexLoop (sum rightRatio : Nat) (rand : Nat → Nat) : Nat → Nat → Nat → Nat → Option (Nat × Nat)
  | 0, k, entry, count => if 1 < count then none else some (entry, k)
  | fuel + 1, k, entry, count =>
      if 1 < count then
        if sum = 0 then none
        else
          let value := rand k % sum
          let temp := count >>> 1
          randomIndexLoop sum rightRatio rand fuel (k + 1)
            (if value < rightRatio then entry + temp else entry) (count - temp)
      else some (entry, k)

/-- `__workload_access_random_index`, with what `workload_rand` returns call by call. A round takes at least one
    file away, so `m_file_count` rounds are enough. -/
def accessRandomIndex (s : State) (rand : Nat → Nat) : Option (Nat × Nat) :=
  randomIndexLoop (accessRandomSum s) s.cfg.rightRatio rand s.fileCount 0 0 s.fileCount

end Workload
