import Workload.Model.Meta

/-!
# `Model.File` — `workload_file.c`: data files and the list of each disk

A file is on the list `m_assign_file` of the disk it is assigned to. `workload_assign_file_to_disk` takes it
out of the old list inside `__workload_move_assign_file` (through `workload_deassign_file`) and pushes it in
front of the new one itself. What the system calls and allocations of one call do is a `MoveIo`.
-/

namespace Workload

/-! ## Files and their arrays -/

/-- `"%s%u%s"` as `workload_new_file` formats it; glibc prints `(null)` for NULL. -/
def formatFilename (cfg : Cfg) (id : Nat) : Text :=
  cfg.filePrefix.getD "(null)".toList ++ formatUnsigned id ++ cfg.fileSuffix.getD "(null)".toList

/-- `s_filename_size` of `workload_new_file`; one byte more is allocated behind the file. -/
def filenameSize (cfg : Cfg) : Nat :=
  (workloadCheckString cfg.filePrefix).length + 10 + (workloadCheckString cfg.fileSuffix).length

/-- `workload_file_pathname_alloc` on the path of the disk and the name of the file. -/
def filePathname (path filename : Text) : Text := path ++ '/' :: filename

/-- `workload_new_file`; `ok` is the outcome of `malloc`. -/
def workloadNewFile (s : State) (id : Nat) (ok : Bool) : Option FilePtr × State :=
  if ok then
    let file : File :=
      { assignPrev := none, assignNext := none, assignDisk := none, reassignDisk := none
        created := false, insertedDb := false, index := 0, id := id
        filename := formatFilename s.cfg id
        readCount := 0, writeCount := 0, timeStamp := s.timeStamp }
    (some s.nextFile,
      { s with files := Function.update s.files s.nextFile file, nextFile := s.nextFile + 1 })
  else (none, s)

/-- `workload_free_file_array`. -/
def workloadFreeFileArray (s : State) : State :=
  if s.fileOrdered = [] then s
  else { s with fileEven := [], fileSorted := [], fileOrdered := [], fileCount := 0 }

/-- `m_index` of the files of a list, from `index` on. -/
def setIndexes : Nat → List FilePtr → State → State
  | _, [], s => s
  | index, f :: files, s =>
      setIndexes (index + 1) files (s.modifyFile f fun file => { file with index := index })

/-- `workload_update_file_array`; `ok` is the outcome of `malloc`. -/
def workloadUpdateFileArray (s : State) (ok : Bool) : Int × State :=
  if s.fileHead = [] then (0, workloadFreeFileArray s)
  else if s.fileCount ≠ s.fileHead.length ∧ ok = false then (-1, workloadFreeFileArray s)
  else
    (0, setIndexes 0 s.fileHead
      { s with
        fileOrdered := s.fileHead
        fileSorted := s.fileHead
        fileEven := s.fileHead
        fileCount := s.fileHead.length })

/-! ## Taking a file off its disk -/

/-- Outcomes inside `workload_deassign_file`: the allocation of the path, and `workload_delete`. -/
structure DeassignIo where
  path : Bool
  delete : Bool

/-- The part of `workload_deassign_file` that removes the file it created itself. -/
def deleteCreated (s : State) (f : FilePtr) (d : DiskPtr) (io : DeassignIo) : State :=
  if (s.files f).created ∧ io.path = true then
    let s :=
      if io.delete then s.setPath (s.dir d) (s.files f).filename none else s
    s.modifyFile f fun file => { file with created := false }
  else s

/-- The next file of the list points past `f`. -/
def bypassNext (s : State) (f : FilePtr) : State :=
  match (s.files f).assignNext with
  | none => s
  | some n => s.modifyFile n fun file => { file with assignPrev := (s.files f).assignPrev }

/-- The previous file of the list, or its head, points past `f`. -/
def bypassPrev (s : State) (f : FilePtr) (d : DiskPtr) : State :=
  match (s.files f).assignPrev with
  | none => s.modifyDisk d fun disk => { disk with assignFile := (s.files f).assignNext }
  | some p => s.modifyFile p fun file => { file with assignNext := (s.files f).assignNext }

/-- The part of `workload_deassign_file` that edits the list of disk `d`. -/
def unlinkFile (s : State) (f : FilePtr) (d : DiskPtr) : State :=
  let s := bypassPrev (bypassNext s f) f d
  let s := s.modifyDisk d fun disk => { disk with assignFileCount := sub64 disk.assignFileCount 1 }
  s.modifyFile f fun file => { file with assignDisk := none, assignPrev := none, assignNext := none }

/-- `workload_deassign_file`. -/
def workloadDeassignFile (s : State) (f : FilePtr) (io : DeassignIo) : Int × State :=
  match (s.files f).assignDisk with
  | none => (0, s)
  | some d => (0, unlinkFile (deleteCreated s f d io) f d)

/-- `workload_free_file`: only the one object; its memory is not looked at again. -/
def workloadFreeFile (s : State) (file : Option FilePtr) (io : DeassignIo) : State :=
  match file with
  | none => s
  | some f =>
      let s := (workloadDeassignFile s f io).2
      { s with freed := s.freed ++ [f] }

/-! ## Moving -/

/-- One round of a transfer loop: the break flag, the most `workload_read` and `workload_write` transfer in
    it (`none` for an error), and what `workload_fill_rand` puts into the buffer. -/
structure IoRound where
  brk : Bool
  read : Option Nat
  write : Option Nat
  fill : Nat → UInt8

/-- The plain copy loop: `rest` is still to be read, `out` is written. Each round reads something, so as
    many rounds as the source has bytes are enough. -/
def copyLoop (rounds : Nat → IoRound) : Nat → Nat → Bytes → Bytes → Bytes
  | 0, _, _, out => out
  | fuel + 1, k, rest, out =>
      if (rounds k).brk then out
      else
        match (rounds k).read with
        | none => out
        | some n =>
            let buffer := rest.take (min n 4096)
            if buffer = [] then out
            else
              match (rounds k).write with
              | none => out
              | some w =>
                  if w < buffer.length then out ++ buffer.take w
                  else copyLoop rounds fuel (k + 1) (rest.drop buffer.length) (out ++ buffer)

/-- Outcomes inside `__workload_move_assign_file`. A call of `open` that the source tries succeeds if it may
    (the field) and the file system allows it. `sendfile` transfers at most the given number of bytes. -/
structure MoveIo where
  fromPath : Bool
  fromOpen : Bool
  toPath : Bool
  toExcl : Bool
  toTrunc : Bool
  rounds : Nat → IoRound
  sendfile : Option Nat
  deassign : DeassignIo

/-- The most bytes one `sendfile` call transfers. -/
def sendfileMax : Nat := 0x7ffff000

/-- What the copy leaves in the target. -/
def copyContents (cfg : Cfg) (io : MoveIo) (contents : Bytes) : Bytes :=
  if cfg.accessSendfile = 0 then copyLoop io.rounds (contents.length + 1) 0 contents []
  else
    match io.sendfile with
    | none => []
    | some n => contents.take (min (toSize cfg.filesize) (min sendfileMax n))

/-- `__workload_move_assign_file`. Its branch for a new file is behind a `return` and never runs. -/
def workloadMoveAssignFile (s : State) (f : FilePtr) (d : DiskPtr) (io : MoveIo) : Int × State :=
  match (s.files f).assignDisk with
  | none => (0, s.modifyFile f fun file => { file with created := false })
  | some home =>
      let name := (s.files f).filename
      let fromDir := s.dir home
      let toDir := s.dir d
      if io.fromPath = false then (-1, s)
      else if io.fromOpen = false ∨ s.fs fromDir name = none then (-1, s)
      else if io.toPath = false then (-1, s)
      else
        -- O_CREAT | O_EXCL first, O_TRUNC when the file is there
        let created := io.toExcl && (s.fs toDir name).isNone
        if created = false ∧ io.toTrunc = false then (-1, s)
        else
          let s := s.setPath toDir name (some [])
          let contents := (s.fs fromDir name).getD []
          let s := s.setPath toDir name (some (copyContents s.cfg io contents))
          let (result, s) := workloadDeassignFile s f io.deassign
          if result = -1 then (-1, s)
          else (0, s.modifyFile f fun file => { file with created := created })

/-- The old head of a list points back to `f`. -/
def backLink (s : State) (head : Option FilePtr) (f : FilePtr) : State :=
  match head with
  | none => s
  | some h => s.modifyFile h fun file => { file with assignPrev := some f }

/-- The part of `workload_assign_file_to_disk` that pushes the file in front of the list of `d`. -/
def linkFile (s : State) (f : FilePtr) (d : DiskPtr) : State :=
  let head := (s.disks d).assignFile
  let s := s.modifyFile f fun file => { file with assignPrev := none, assignNext := head }
  let s := backLink s head f
  let s := s.modifyDisk d fun disk => { disk with assignFile := some f }
  let s := s.modifyFile f fun file => { file with assignDisk := some d }
  s.modifyDisk d fun disk => { disk with assignFileCount := add64 disk.assignFileCount 1 }

/-- The part of `workload_assign_file_to_disk` under `m_reassign_lock`: time stamps and the meta DB. -/
def assignedSection (s : State) (f : FilePtr) (d : DiskPtr) (oldDisk : Option DiskPtr) : State :=
  let s := match oldDisk with
    | none => s
    | some old => s.modifyDisk old fun disk => { disk with timeStamp := s.timeStamp }
  let s := s.modifyFile f fun file => { file with timeStamp := s.timeStamp }
  let s := s.modifyDisk d fun disk => { disk with timeStamp := s.timeStamp }
  updateDb s (some f) none

/-- `workload_assign_file_to_disk`. -/
def workloadAssignFileToDisk (s : State) (file : Option FilePtr) (disk : Option DiskPtr)
    (io : MoveIo) : Int × State :=
  match file, disk with
  | some f, some d =>
      let oldDisk := (s.files f).assignDisk
      if oldDisk = some d then (0, s)
      else
        let (result, s) := workloadMoveAssignFile s f d io
        if result = 0 then (result, assignedSection (linkFile s f d) f d oldDisk) else (result, s)
  | _, _ => (-1, s)

end Workload
