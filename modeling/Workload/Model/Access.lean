import Workload.Model.File

/-!
# `Model.Access` — `workload_access.c` and `workload_relocate.c`

`workload_file_access` first reads or writes the file (`accessTransfer`) and then, when that counted,
updates the counters, the sorted array and the relocation plan under `m_reassign_lock` (`accessSection`).
`workload_file_relocate` carries the plan out.
-/

namespace Workload

/-! ## The transfer -/

/-- Outcomes inside `workload_file_access`: the allocation of the path, `workload_rand`, `open`, and the
    rounds of the loop. -/
structure AccessIo where
  path : Bool
  rand : Nat
  opened : Bool
  rounds : Nat → IoRound

/-- The read loop: `s_delta_read` once it ends. -/
def readLoop (rounds : Nat → IoRound) : Nat → Nat → Bytes → Nat → Nat
  | 0, _, _, deltaRead => deltaRead
  | fuel + 1, k, rest, deltaRead =>
      if (rounds k).brk then deltaRead
      else
        match (rounds k).read with
        | none => deltaRead
        | some n =>
            let buffer := rest.take (min n 4096)
            if buffer = [] then deltaRead else readLoop rounds fuel (k + 1) (rest.drop buffer.length) 1

/-- The loop that fills a file with random bytes up to `m_filesize`: `want` bytes are missing, `out` is
    written. A round that writes nothing ends it, so `want` rounds are enough. -/
def fillLoop (rounds : Nat → IoRound) : Nat → Nat → Nat → Bytes → Bytes
  | 0, _, _, out => out
  | fuel + 1, k, want, out =>
      if (rounds k).brk ∨ want = 0 then out
      else
        match (rounds k).write with
        | none => out
        | some w =>
            let written := min w (min want 4096)
            if written = 0 then out
            else
              fillLoop rounds fuel (k + 1) (want - written)
                (out ++ (List.range written).map (rounds k).fill)

/-- `s_access_mode != 0`. -/
def accessWrites (s : State) (io : AccessIo) : Bool :=
  match s.cfg.accessMethod with
  | .read => false
  | .write => true
  | .rw => io.rand % 2 != 0

/-- The disk pretends to be switched off: the access is not carried out. -/
def fakeOff (s : State) (d : DiskPtr) : Bool :=
  s.relocate && (s.disks d).fakeoffDelay != -1 &&
    decide (toSize (s.disks d).fakeoffDelay ≤ sub64 s.timeStamp (s.disks d).fakeoffTimeStamp)

/-- The middle of `workload_file_access`, for a file on disk `d`: `s_delta_read`, `s_delta_write` and the
    state with the file's new contents. -/
def accessTransfer (s : State) (f : FilePtr) (d : DiskPtr) (io : AccessIo) : (Nat × Nat) × State :=
  let dir := s.dir d
  let name := (s.files f).filename
  if fakeOff s d then ((0, 0), s)
  else
    match s.fs dir name with
    | none => ((0, 0), s)
    | some contents =>
        if io.opened = false then ((0, 0), s)
        else if accessWrites s io = false then
          let deltaRead := if s.cfg.filesize ≤ 0 then 1 else 0
          ((readLoop io.rounds (contents.length + 1) 0 contents deltaRead, 0), s)
        else
          let out := fillLoop io.rounds s.cfg.filesize.toNat 0 s.cfg.filesize.toNat []
          -- every round that wrote something sets `s_delta_write`
          ((0, if s.cfg.filesize ≤ 0 ∨ out ≠ [] then 1 else 0), s.setPath dir name (some out))

/-! ## The section under `m_reassign_lock` -/

/-- The counters of a counted access, of the file, its disk and the workload. -/
def countAccess (s : State) (f : FilePtr) (deltaRead deltaWrite : Nat) : State :=
  let s := s.modifyFile f fun file =>
    { file with
      readCount := add64 file.readCount deltaRead
      writeCount := add64 file.writeCount deltaWrite
      timeStamp := s.timeStamp }
  let s := match (s.files f).assignDisk with
    | none => s
    | some d => s.modifyDisk d fun disk =>
        { disk with
          readCount := add64 disk.readCount deltaRead
          writeCount := add64 disk.writeCount deltaWrite
          timeStamp := s.timeStamp }
  s.setTotals (add64 s.readCount deltaRead) (add64 s.writeCount deltaWrite)

/-- `s_file->m_read_count + s_file->m_write_count`. -/
def accessCount (s : State) (f : FilePtr) : Nat :=
  add64 (s.files f).readCount (s.files f).writeCount

/-- The loop that moves file `f`, at index `i` of the sorted array, to the front. -/
def sortIndex (f : FilePtr) (count : Nat) : Nat → State → State
  | 0, s => s
  | i + 1, s =>
      let g := s.fileSorted.getD i 0
      if count ≤ accessCount s g then s
      else
        let s := s.setSorted (i + 1) g
        let s := s.modifyFile g fun file => { file with index := i + 1 }
        let s := s.setSorted i f
        let s := s.modifyFile f fun file => { file with index := i }
        sortIndex f count i s

/-- The inner loop of the plan: `n` files from `fileIndex` of the sorted array on belong on disk `d`. -/
def planWindow (d : DiskPtr) : Nat → Nat → State → State
  | 0, _, s => s
  | n + 1, fileIndex, s =>
      let f := s.fileSorted.getD fileIndex 0
      planWindow d n (fileIndex + 1) (s.modifyFile f fun file =>
        { file with reassignDisk := if file.assignDisk = some d then none else some d })

/-- The outer loop of the plan, over `n` disks from `diskIndex` on. -/
def planLoop (next : List Nat) : Nat → Nat → Nat → State → State
  | 0, _, _, s => s
  | n + 1, diskIndex, fileIndex, s =>
      let bound := next.getD diskIndex 0
      planLoop next n (diskIndex + 1) (max fileIndex bound)
        (planWindow (s.disk.getD diskIndex 0) (bound - fileIndex) fileIndex s)

/-- The plan in `m_reassign_disk`, when there is an `m_next_file_index`. -/
def planReassign (s : State) : State :=
  match s.nextFileIndex with
  | none => s
  | some next => planLoop next s.diskCount 0 0 s

/-- What `workload_file_access` does under `m_reassign_lock`. -/
def accessSection (s : State) (f : FilePtr) (deltaRead deltaWrite : Nat) : State :=
  let s := countAccess s f deltaRead deltaWrite
  let s := sortIndex f (accessCount s f) (s.files f).index s
  let s := planReassign s
  updateDb s (some f) (s.files f).assignDisk

/-- `workload_file_access`. -/
def workloadFileAccess (s : State) (file : Option FilePtr) (io : AccessIo) : Int × State :=
  match file with
  | none => (-1, s)
  | some f =>
      match (s.files f).assignDisk with
      | none => (0, s)
      | some d =>
          if io.path = false then (-1, s)
          else
            let ((deltaRead, deltaWrite), s) := accessTransfer s f d io
            if 0 < deltaRead + deltaWrite then
              ((deltaRead + deltaWrite : Nat), accessSection s f deltaRead deltaWrite)
            else ((deltaRead + deltaWrite : Nat), s)

/-! ## Reset and relocate -/

/-- One file of the reset. -/
def resetFile (s : State) (f : FilePtr) : State :=
  let s := s.modifyFile f fun file =>
    { file with readCount := 0, writeCount := 0, timeStamp := s.timeStamp }
  updateDb s (some f) none

/-- One disk of the reset. -/
def resetDisk (s : State) (d : DiskPtr) : State :=
  let s := s.modifyDisk d fun disk =>
    { disk with readCount := 0, writeCount := 0, timeStamp := s.timeStamp }
  updateDb s none (some d)

/-- `workload_reset_file_access_count`. -/
def workloadResetFileAccessCount (s : State) : State :=
  let s := s.fileHead.foldl resetFile s
  let s := s.diskHead.foldl resetDisk s
  s.setTotals 0 0

/-- One file of `workload_file_relocate`. -/
def relocateFile (s : State) (f : FilePtr) (io : MoveIo) : State :=
  match (s.files f).reassignDisk with
  | none => s
  | some d =>
      (workloadAssignFileToDisk s (some f) (some d) io).2.modifyFile f fun file =>
        { file with reassignDisk := none }

/-- `workload_file_relocate`, with the outcomes inside each file's move. -/
def workloadFileRelocate (s : State) (ios : FilePtr → MoveIo) : State :=
  s.fileHead.foldl (fun s f => relocateFile s f (ios f)) s

end Workload
