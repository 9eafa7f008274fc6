import Workload.Model.State

/-!
# `Model.Meta` — `workload_db.c`: the meta database kept beside the memory

`workload_reset_db` rebuilds the two tables; `workload_update_db` pushes a file's row, the row of its disk,
and the row of a second disk. A function returns what the source returns (`0` or `-1`) and the state.
-/

namespace Workload

/-- `workload_db_query_set` on `m_db`. -/
def querySet (s : State) (stmt : Stmt) : Int × State :=
  match s.db with
  | none => (-1, s)
  | some db =>
      let (result, db) := workloadDbQuerySet db stmt
      (result, s.setDb (some db))

/-- `if(x == (-1)) { return(-1); }`, and on with `next`. -/
def orFail (x : Int × State) (next : State → Int × State) : Int × State :=
  if x.1 = -1 then (-1, x.2) else next x.2

/-- Queries in order, up to the first that returns `-1`. -/
def querySets : State → List Stmt → Int × State
  | s, [] => (0, s)
  | s, stmt :: stmts => orFail (querySet s stmt) fun s => querySets s stmts

/-- `workload_reset_db`. -/
def workloadResetDb (s : State) : Int × State :=
  match s.db with
  | none => (-1, s)
  | some _ => querySets s [.dropFile, .dropDisk, .createDisk, .createFile]

/-- The values the update of a file's row formats. -/
def fileRow (s : State) (file : File) : FileRow where
  diskId := match file.assignDisk with
    | none => 0
    | some d => (s.disks d).id
  read := file.readCount
  write := file.writeCount
  access := add64 file.readCount file.writeCount
  pathname := match file.assignDisk with
    | none => file.filename
    | some d => (s.disks d).path ++ '/' :: file.filename

/-- The first half of `workload_update_db_file`: the row is inserted once. -/
def insertDbFile (s : State) (f : FilePtr) : Int × State :=
  if (s.files f).insertedDb then (0, s)
  else
    orFail (querySet s (.insertFile (s.files f).id)) fun s =>
      (0, s.modifyFile f fun file => { file with insertedDb := true })

/-- `workload_update_db_file`. -/
def workloadUpdateDbFile (s : State) (f : FilePtr) : Int × State :=
  orFail (insertDbFile s f) fun s =>
    orFail (querySet s (.updateFile (s.files f).id (fileRow s (s.files f)))) fun s => (0, s)

/-- The first half of `workload_update_db_disk`. -/
def insertDbDisk (s : State) (d : DiskPtr) : Int × State :=
  if (s.disks d).insertedDb then (0, s)
  else
    orFail (querySet s (.insertDisk (s.disks d).id (s.disks d).name (s.disks d).path)) fun s =>
      (0, s.modifyDisk d fun disk => { disk with insertedDb := true })

/-- The update of a disk's row. -/
def diskUpdate (disk : Disk) : Stmt :=
  .updateDisk disk.id disk.assignFileCount disk.readCount disk.writeCount
    (add64 disk.readCount disk.writeCount)

/-- `workload_update_db_disk`. -/
def workloadUpdateDbDisk (s : State) (d : DiskPtr) : Int × State :=
  orFail (insertDbDisk s d) fun s =>
    orFail (querySet s (diskUpdate (s.disks d))) fun s => (0, s)

/-- `workload_update_db`: the row of `file`, of the disk it is assigned to, and of `disk`; once when the two
    disks are the same. -/
def workloadUpdateDb (s : State) (file : Option FilePtr) (disk : Option DiskPtr) : Int × State :=
  match s.db with
  | none => (-1, s)
  | some _ =>
      match file with
      | none =>
          match disk with
          | none => (0, s)
          | some d => workloadUpdateDbDisk s d
      | some f =>
          orFail (workloadUpdateDbFile s f) fun s =>
            match (s.files f).assignDisk, disk with
            | none, none => (0, s)
            | none, some d => workloadUpdateDbDisk s d
            | some home, none => orFail (workloadUpdateDbDisk s home) fun s => (0, s)
            | some home, some d =>
                if home = d then workloadUpdateDbDisk s home
                else orFail (workloadUpdateDbDisk s home) fun s => workloadUpdateDbDisk s d

/-- `(void)workload_update_db(...)`: the callers drop the result. -/
def updateDb (s : State) (file : Option FilePtr) (disk : Option DiskPtr) : State :=
  (workloadUpdateDb s file disk).2

end Workload
