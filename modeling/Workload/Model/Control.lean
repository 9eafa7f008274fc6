import Workload.Model.Config

/-!
# `Model.Control` — start-up, control commands and the screen

The parts of `workload.c` and `workload_view.c` that read or write the state of the other modules:
`workload_init` with its options, the pause and relocate switches, `workload_cmd` (its replies left out),
the index an access thread draws, and of `workload_update_screen` the one-second sample and the two usage
figures of each disk.
-/

namespace Workload

/-! ## Switches -/

/-- One disk in the locked part of the two relocate switches. -/
def restartDisk (s : State) (d : DiskPtr) : State :=
  let s := s.modifyDisk d fun disk =>
    { disk with
      readCount := 0
      writeCount := 0
      timeStamp := s.timeStamp
      fakeoffTimeStamp := s.timeStamp }
  updateDb s none (some d)

/-- The part of the two relocate switches under `m_reassign_lock`. -/
def relocateSection (s : State) : State := s.diskHead.foldl restartDisk s

/-- `workload_set_main_relocate`. -/
def workloadSetMainRelocate (s : State) (relocate : Bool) : State :=
  relocateSection (s.setRelocate relocate)

/-- `workload_toggle_main_relocate`. -/
def workloadToggleMainRelocate (s : State) : State :=
  relocateSection (s.setRelocate !s.relocate)

/-- `workload_set_main_pause`. -/
def workloadSetMainPause (s : State) (pause : Bool) : State := { s with pause := pause }

/-- `workload_toggle_main_pause`. -/
def workloadToggleMainPause (s : State) : State := { s with pause := !s.pause }

/-- `workload_update_main_time_stamp`, the clock reading given. -/
def workloadUpdateMainTimeStamp (s : State) (timeStamp : Nat) : State :=
  { s with timeStamp := timeStamp }

/-! ## Commands -/

/-- `workload_cmd` on the bytes of one command; `ios` are the outcomes of a relocation it starts. -/
def workloadCmd (s : State) (code : Text) (ios : FilePtr → MoveIo) : State :=
  match code with
  | [] => s
  | [c] =>
      if c = '\x1b' ∨ c = 'q' then { s with breakPtr := true }
      else if c = 'Q' then { s with reloadPtr := true, breakPtr := true }
      else if c = 'r' then
        let s := workloadToggleMainRelocate s
        if s.relocate then workloadFileRelocate s ios else s
      else if c = 'o' then workloadFileRelocate s ios
      else if c = 'p' then workloadToggleMainPause s
      else if c = 'S' then workloadFileRelocate (workloadSetMainRelocate s true) ios
      else if c = 'K' then workloadSetMainRelocate s false
      else if c = 'P' then workloadSetMainPause s true
      else if c = 'R' then workloadSetMainPause s false
      else if c = '!' then workloadResetFileAccessCount s
      else s
  | c :: blank :: argument =>
      if isspace blank then
        let value := atoi argument
        if c = 'l' ∧ 0 < value then { s with cfg := { s.cfg with leftRatio := toUnsigned value } }
        else if c = 'r' ∧ 0 < value then { s with cfg := { s.cfg with rightRatio := toUnsigned value } }
        else s
      else s

/-! ## Access threads -/

/-- `s_sum` of `__workload_access_random_index`, in `unsigned int` arithmetic. -/
def accessRandomSum (s : State) : Nat := (s.cfg.leftRatio + s.cfg.rightRatio) % 2 ^ 32

/-! ## Screen -/

/-- The part of `workload_update_screen` that samples the counters, on a terminal of that height. -/
def workloadUpdateScreen (s : State) (height : Nat) : State :=
  if s.opt.daemonize then s
  else if height ≤ 20 then s
  else if sub64 s.timeStamp s.timeStamp1sec < 1000 then s
  else
    { s with
      readCount1sec := sub64 s.readCount s.readCountPrev
      writeCount1sec := sub64 s.writeCount s.writeCountPrev
      readCountPrev := s.readCount
      writeCountPrev := s.writeCount
      timeStamp1sec := s.timeStamp }

/-- `s_ratio`: the share of `part` in the workload's total, in units of 1/100000. -/
def usageRatio (s : State) (part : Nat) : Nat :=
  let total := add64 s.readCount s.writeCount
  if 0 < total then part * 100000 % 2 ^ 64 / total % 2 ^ 32 else 0

/-- The first usage figure of a disk: by the disk's own counters. -/
def diskUsage (s : State) (d : DiskPtr) : Nat :=
  usageRatio s (add64 (s.disks d).readCount (s.disks d).writeCount)

/-- The loop over `m_assign_file` that sums the counters of a disk's files, for at most `fuel` files. -/
def usageLoop (s : State) : Nat → Option FilePtr → Nat → Nat → Option (Nat × Nat)
  | _, none, readCount, writeCount => some (readCount, writeCount)
  | 0, some _, _, _ => none
  | fuel + 1, some f, readCount, writeCount =>
      usageLoop s fuel (s.files f).assignNext
        (add64 readCount (s.files f).readCount) (add64 writeCount (s.files f).writeCount)

/-- The second usage figure of a disk: by the counters of its files. -/
def fileUsage (s : State) (d : DiskPtr) : Option Nat :=
  if 0 < add64 s.readCount s.writeCount then
    (usageLoop s s.fileHead.length (s.disks d).assignFile 0 0).map fun (readCount, writeCount) =>
      usageRatio s (add64 readCount writeCount)
  else some 0

/-! ## Start-up -/

/-- `workload_init_option`. -/
def workloadInitOption : Opt where
  verbose := false
  daemonize := false
  configFile := none
  dumpDisk := false
  dumpFile := false
  leftRatio := 0
  rightRatio := 0
  duration := 2 ^ 64 - 1
  accessInterval := 2 ^ 64 - 1
  filesAssignMethod := none
  filePrefix := none
  fileSuffix := none
  filecount := 0
  filesize := -1
  pause := -1
  threads := -1

/-- One option of the command line as `workload_parse_option` handles it: its long name and argument. -/
def parseOptionCase (s : State) (option : Text × Text) : State :=
  let (name, optarg) := option
  if name = "verbose".toList ∨ name = "debug".toList then { s with opt := { s.opt with verbose := true } }
  else if name = "daemon".toList then { s with opt := { s.opt with daemonize := true } }
  else if name = "config".toList then { s with opt := { s.opt with configFile := some optarg } }
  else if name = "dump-disk".toList then { s with opt := { s.opt with dumpDisk := true } }
  else if name = "dump-file".toList then { s with opt := { s.opt with dumpFile := true } }
  else if name = "left".toList then
    { s with opt := { s.opt with leftRatio := toUnsigned (atoi optarg) } }
  else if name = "right".toList then
    { s with opt := { s.opt with rightRatio := toUnsigned (atoi optarg) } }
  else if name = "duration".toList then
    { s with opt := { s.opt with duration := toSize (atoi optarg) } }
  else if name = "interval".toList then
    { s with opt := { s.opt with accessInterval := toSize (atoi optarg) } }
  else if name = "assign-method".toList then
    { s with opt := { s.opt with filesAssignMethod := some optarg } }
  else if name = "prefix".toList then { s with opt := { s.opt with filePrefix := some optarg } }
  else if name = "suffix".toList then { s with opt := { s.opt with fileSuffix := some optarg } }
  else if name = "filecount".toList then
    { s with opt := { s.opt with filecount := toSize (atoi optarg) } }
  else if name = "filesize".toList then { s with opt := { s.opt with filesize := atoi optarg } }
  else if name = "pause".toList then { s with opt := { s.opt with pause := 1 } }
  else if name = "relocate".toList then workloadSetMainRelocate s true
  else if name = "threads".toList then { s with opt := { s.opt with threads := atoi optarg } }
  else s

/-- `workload_init` at a clock reading, over the given file system, with the options of the command line. -/
def workloadInit (timeStamp : Nat) (directory : Text → Text) (fs : Text → Text → Option Bytes)
    (options : List (Text × Text)) : State :=
  options.foldl parseOptionCase
    { breakPtr := false, reloadPtr := true
      opt := workloadInitOption, cfg := workloadInitConfig, xml := none, db := none
      timeStamp := timeStamp, timeStampStart := timeStamp
      useFakeoff := false, pause := false, relocate := false
      diskReadyCount := 0, diskErrorCount := 0, readCount := 0, writeCount := 0
      timeStamp1sec := timeStamp
      readCountPrev := 0, writeCountPrev := 0, readCount1sec := 0, writeCount1sec := 0
      diskHead := [], maxNameSize := 0, diskCount := 0, disk := []
      fileHead := [], fileCount := 0, fileOrdered := [], fileSorted := [], fileEven := []
      nextFileIndex := none
      files := fun _ => default, nextFile := 0, freed := [], disks := fun _ => default, nextDisk := 0
      directory := directory, fs := fs }

end Workload
