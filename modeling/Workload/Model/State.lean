import Workload.Model.Db
import Workload.Model.Xml

/-!
# `Model.State` — `workload_t`, `workload_disk_t` and `workload_file_t`

Disks and files live in two heaps and are named by pointers; a pointer field that may be NULL is an
`Option`. The chains `m_disk_head`/`m_file_head`, which are only built at the tail and walked forwards, are
the lists of their nodes; the per-disk lists `m_assign_file`, which are edited in the middle, keep their
`m_assign_prev`/`m_assign_next` pointers. An array that is NULL is the empty list. The bits of `m_flags` are
separate fields.

The files on the disks are `fs`: a directory and the name of a file in it, one component without a slash. Two
paths may name the same directory; `directory` gives the one a path names. No link or mount changes that while the
workload runs.
-/

namespace Workload

abbrev FilePtr := Nat
abbrev DiskPtr := Nat
abbrev Bytes := List UInt8

def defWorkloadConfigDefaultFiles : Nat := 1000
def defWorkloadConfigMaxFiles : Nat := 1000000

/-- `workload_file_t`. -/
structure File where
  assignPrev : Option FilePtr
  assignNext : Option FilePtr
  assignDisk : Option DiskPtr
  reassignDisk : Option DiskPtr
  /-- `def_workload_file_flag_created` -/
  created : Bool
  /-- `def_workload_file_flag_inserted_db` -/
  insertedDb : Bool
  index : Nat
  id : Nat
  filename : Text
  readCount : Nat
  writeCount : Nat
  timeStamp : Nat
  deriving Inhabited

/-- Where the thread of a disk service stands. -/
inductive ServicePc where
  | start
  /-- at the head of the file loop, with `s_file` -/
  | walk (file : Option FilePtr)
  /-- the file is written, its access lock released -/
  | count (file : FilePtr)
  /-- behind the loop -/
  | leave
  | ready
  /-- returned before the loop -/
  | failed
  deriving DecidableEq

/-- `workload_disk_t`, with the thread of its service. -/
structure Disk where
  /-- `def_workload_disk_flag_create_path` -/
  createPath : Bool
  /-- `def_workload_disk_flag_inserted_db` -/
  insertedDb : Bool
  id : Nat
  name : Text
  path : Text
  fakeoffDelay : Int
  service : Option ServicePc
  /-- `s_created_path` of the service -/
  createdPath : Option Text
  readCount : Nat
  writeCount : Nat
  timeStamp : Nat
  fakeoffTimeStamp : Nat
  assignFileCount : Nat
  assignFile : Option FilePtr
  deriving Inhabited

/-- `workload_opt_t`: the options that are read after start-up. -/
structure Opt where
  verbose : Bool
  daemonize : Bool
  configFile : Option Text
  dumpDisk : Bool
  dumpFile : Bool
  leftRatio : Nat
  rightRatio : Nat
  duration : Nat
  accessInterval : Nat
  filesAssignMethod : Option Text
  filePrefix : Option Text
  fileSuffix : Option Text
  filecount : Nat
  filesize : Int
  pause : Int
  threads : Int

/-- `m_access_method`. -/
inductive AccessMethod where
  | read
  | write
  | rw
  deriving DecidableEq

/-- `workload_cfg_t`. -/
structure Cfg where
  configFile : Option Text
  leftRatio : Nat
  rightRatio : Nat
  duration : Nat
  accessInterval : Nat
  filesRemove : Int
  /-- 0 = random, 1 = ordered, 2 = even -/
  filesAssignMethod : Nat
  filePrefix : Option Text
  fileSuffix : Option Text
  filecount : Nat
  filesize : Int
  accessMethod : AccessMethod
  accessSync : Int
  accessSendfile : Int
  accessThreads : Int

/-- `workload_t`, the heaps and the file system. -/
structure State where
  /-- `*m_break_ptr != 0` -/
  breakPtr : Bool
  /-- `*m_reload_ptr != 0` -/
  reloadPtr : Bool
  opt : Opt
  cfg : Cfg
  xml : Option Document
  db : Option Db
  timeStamp : Nat
  timeStampStart : Nat
  /-- `def_workload_flag_use_fakeoff` -/
  useFakeoff : Bool
  pause : Bool
  relocate : Bool
  diskReadyCount : Nat
  diskErrorCount : Nat
  readCount : Nat
  writeCount : Nat
  timeStamp1sec : Nat
  readCountPrev : Nat
  writeCountPrev : Nat
  readCount1sec : Nat
  writeCount1sec : Nat
  diskHead : List DiskPtr
  maxNameSize : Nat
  diskCount : Nat
  disk : List DiskPtr
  fileHead : List FilePtr
  fileCount : Nat
  fileOrdered : List FilePtr
  fileSorted : List FilePtr
  fileEven : List FilePtr
  nextFileIndex : Option (List Nat)
  /-- the file heap, and the pointer the next `malloc` returns -/
  files : FilePtr → File
  nextFile : FilePtr
  /-- the file objects that were handed to `free` -/
  freed : List FilePtr
  /-- the disk heap, and the pointer the next `malloc` returns -/
  disks : DiskPtr → Disk
  nextDisk : DiskPtr
  /-- the directory a path names, by its canonical path -/
  directory : Text → Text
  fs : Text → Text → Option Bytes

/-- `+` and `-` on `unsigned long long` and `size_t`. -/
def add64 (a b : Nat) : Nat := (a + b) % 2 ^ 64

def sub64 (a b : Nat) : Nat := (a + 2 ^ 64 - b) % 2 ^ 64

theorem add64_of_lt {a b : Nat} (h : a + b < 2 ^ 64) : add64 a b = a + b := Nat.mod_eq_of_lt h

theorem sub64_of_le {a b : Nat} (h : b ≤ a) (ha : a < 2 ^ 64) : sub64 a b = a - b := by
  unfold sub64
  omega

/-! ## Writing through a pointer -/

namespace State

/-- The directory of disk `d`. -/
def dir (s : State) (d : DiskPtr) : Text := s.directory (s.disks d).path

/-- Write to the fields of file `f`. -/
def modifyFile (s : State) (f : FilePtr) (g : File → File) : State :=
  { s with files := Function.update s.files f (g (s.files f)) }

/-- Write to the fields of disk `d`. -/
def modifyDisk (s : State) (d : DiskPtr) (g : Disk → Disk) : State :=
  { s with disks := Function.update s.disks d (g (s.disks d)) }

/-- Write the contents of a path, or remove it. -/
def setPath (s : State) (dir name : Text) (contents : Option Bytes) : State :=
  { s with fs := Function.update s.fs dir (Function.update (s.fs dir) name contents) }

/-- Write `m_db`. -/
def setDb (s : State) (db : Option Db) : State := { s with db := db }

/-- Write `m_read_count` and `m_write_count`. -/
def setTotals (s : State) (readCount writeCount : Nat) : State :=
  { s with readCount := readCount, writeCount := writeCount }

/-- Write one entry of `m_file_sorted`. -/
def setSorted (s : State) (i : Nat) (f : FilePtr) : State :=
  { s with fileSorted := s.fileSorted.set i f }

/-- Write `m_disk_ready_count` and `m_disk_error_count`. -/
def setServiceCounts (s : State) (ready error : Nat) : State :=
  { s with diskReadyCount := ready, diskErrorCount := error }

/-- Write `m_relocate`. -/
def setRelocate (s : State) (relocate : Bool) : State := { s with relocate := relocate }

theorem modifyFile_files (s : State) (f x : FilePtr) (g : File → File) :
    (s.modifyFile f g).files x = if x = f then g (s.files f) else s.files x := by
  simp [modifyFile, Function.update_apply]

theorem modifyDisk_disks (s : State) (d x : DiskPtr) (g : Disk → Disk) :
    (s.modifyDisk d g).disks x = if x = d then g (s.disks d) else s.disks x := by
  simp [modifyDisk, Function.update_apply]

theorem setPath_fs (s : State) (dir name dir' name' : Text) (contents : Option Bytes) :
    (s.setPath dir name contents).fs dir' name' =
      if dir' = dir ∧ name' = name then contents else s.fs dir' name' := by
  by_cases hdir : dir' = dir
  · by_cases hname : name' = name <;> simp [setPath, hdir, hname]
  · simp [setPath, hdir]

end State

end Workload
