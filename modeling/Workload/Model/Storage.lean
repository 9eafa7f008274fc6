import Workload.Model.Access

/-!
# `Model.Storage` — `workload_storage.c`: disks and their services

A disk service is a thread that makes sure of the directory, writes every file of the disk once, and then
waits until it is closed. `diskServiceStep` is one step of it: between two of them other threads may run. A
round of the file loop takes two, the writing under the file's access lock and the counting under
`m_reassign_lock`. `workload_break_service` is `0` as long as nobody closes the service.
-/

namespace Workload

/-! ## Disks and their array -/

/-- `workload_new_disk`; `ok` is the outcome of `malloc`. -/
def workloadNewDisk (s : State) (id : Nat) (name path : Text) (isCreatePath ok : Bool) :
    Option DiskPtr × State :=
  if ok then
    let (path, name) := if name = [] then workloadBasename path else (path, name)
    let disk : Disk :=
      { createPath := isCreatePath, insertedDb := false, id := id, name := name, path := path
        fakeoffDelay := -1, service := none, createdPath := none
        readCount := 0, writeCount := 0, timeStamp := s.timeStamp, fakeoffTimeStamp := s.timeStamp
        assignFileCount := 0, assignFile := none }
    (some s.nextDisk,
      { s with disks := Function.update s.disks s.nextDisk disk, nextDisk := s.nextDisk + 1 })
  else (none, s)

/-- `workload_delete` on a directory: everything below it goes. -/
def deleteTree (s : State) (root : Text) : State :=
  { s with
    fs := fun dir name =>
      if dir = root ∨ (root ++ ['/']).isPrefixOf dir then none else s.fs dir name }

/-- Closing the service of one disk: its thread removes the directory it created and ends. -/
def closeService (s : State) (d : DiskPtr) : State :=
  match (s.disks d).service with
  | none => s
  | some _ =>
      let s := match (s.disks d).createdPath with
        | none => s
        | some entry => deleteTree s (s.directory entry)
      s.modifyDisk d fun disk => { disk with service := none, createdPath := none }

/-- `workload_free_disk` on the chain `m_disk_head`. -/
def workloadFreeDisk (s : State) : State :=
  { s.diskHead.foldl closeService s with diskHead := [] }

/-- `workload_free_disk_array`. -/
def workloadFreeDiskArray (s : State) : State :=
  if s.disk = [] then s else { s with disk := [], diskCount := 0, maxNameSize := 0 }

/-- `workload_update_disk_array`; `ok` is the outcome of `malloc`. -/
def workloadUpdateDiskArray (s : State) (ok : Bool) : Int × State :=
  let s := workloadFreeDiskArray s
  let s := { s with diskCount := s.diskCount + s.diskHead.length }
  if s.diskCount = 0 then (0, s)
  else if ok = false then (-1, { s with diskCount := 0 })
  else
    (0, { s with
      disk := s.diskHead
      maxNameSize := s.diskHead.foldl (fun m d => max m (s.disks d).name.length) s.maxNameSize })

/-! ## The disk service -/

/-- Outcomes inside one step: `stat` or `workload_mkdir_ex`, the first entry that created, the allocation of
    the path, the two `open` calls, and the rounds of the write loop. -/
structure ServiceIo where
  directory : Bool
  created : Option Text
  path : Bool
  excl : Bool
  trunc : Bool
  rounds : Nat → IoRound

/-- The service of disk `d` goes on at `pc`. -/
def setPc (s : State) (d : DiskPtr) (pc : ServicePc) : State :=
  s.modifyDisk d fun disk => { disk with service := some pc }

/-- The section that counts a file the service of `d` has written. -/
def serviceSection (s : State) (f : FilePtr) (d : DiskPtr) : State :=
  let s := s.modifyFile f fun file =>
    { file with writeCount := add64 file.writeCount 1, timeStamp := s.timeStamp }
  let s := s.modifyDisk d fun disk =>
    { disk with writeCount := add64 disk.writeCount 1, timeStamp := s.timeStamp }
  let s := s.setTotals s.readCount (add64 s.writeCount 1)
  updateDb s (some f) (some d)

/-- One step of `workload_disk_service` for disk `d`. -/
def diskServiceStep (s : State) (d : DiskPtr) (io : ServiceIo) : State :=
  match (s.disks d).service with
  | none => s
  | some .start =>
      if io.directory = false then
        setPc (s.setServiceCounts s.diskReadyCount (s.diskErrorCount + 1)) d .failed
      else if (s.disks d).createPath then
        setPc (s.modifyDisk d fun disk => { disk with createdPath := io.created }) d
          (.walk (s.disks d).assignFile)
      else setPc s d (.walk (s.disks d).assignFile)
  | some (.walk none) => setPc s d .leave
  | some (.walk (some f)) =>
      let dir := s.dir d
      let name := (s.files f).filename
      if io.path = false then setPc (s.setServiceCounts s.diskReadyCount (s.diskErrorCount + 1)) d .leave
      else if (io.excl && (s.fs dir name).isNone) = false ∧ io.trunc = false then
        setPc (s.setServiceCounts s.diskReadyCount (s.diskErrorCount + 1)) d .leave
      else
        let out := fillLoop io.rounds s.cfg.filesize.toNat 0 s.cfg.filesize.toNat []
        setPc (s.setPath dir name (some out)) d (.count f)
  | some (.count f) => setPc (serviceSection s f d) d (.walk (s.files f).assignNext)
  | some .leave => setPc (s.setServiceCounts (s.diskReadyCount + 1) s.diskErrorCount) d .ready
  | some .ready => s
  | some .failed => s

end Workload
