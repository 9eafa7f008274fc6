import Workload.Model.Control

/-!
# `Model.System` — the workload as a system of calls

One step of the system is one call on the shared state (`Op`), with everything the environment decides during
the call as its argument. A load takes several steps: `load` runs up to the wait for the services, `service`
is one step of one of them. Its later stages are steps as well, so a run may also begin behind the stages
that build the objects: `assign` for each round, `index`, `start`, and then the services.

The threads of a loaded workload do not run call by call. `Section` is the finer system: what a thread does
under `m_reassign_lock` is one step, and so is each stretch between two such sections.
-/

namespace Workload

/-- The state a load stands in when its stages end. -/
def Load.state : Load → State
  | .ok s => s
  | .error (.returned _ s) => s
  | .error (.undefined s) => s
  | .error (.waiting s) => s

/-- `workload_load_config` up to the wait for the services. -/
def startLoad (env : LoadEnv) (s : State) : State :=
  match s.xml with
  | some _ => s
  | none =>
      match (confTable s.opt).findSome? fun file => (env.openXml file).map fun doc => (file, doc) with
      | none => { s with cfg := { s.cfg with configFile := s.opt.configFile } }
      | some (file, doc) =>
          (loadAssigned env doc
            { s with xml := some doc, cfg := { s.cfg with configFile := some file } }).state

/-- The calls. -/
inductive Op where
  | load (env : LoadEnv)
  | unload (io : DeassignIo)
  | index (env : LoadEnv)
  | start (env : LoadEnv)
  | service (disk : DiskPtr) (io : ServiceIo)
  | assign (file : Option FilePtr) (disk : Option DiskPtr) (io : MoveIo)
  | access (file : Option FilePtr) (io : AccessIo)
  | reset
  | setRelocate (value : Bool)
  | toggleRelocate
  | relocate (ios : FilePtr → MoveIo)
  | command (code : Text) (ios : FilePtr → MoveIo)
  | tick (timeStamp : Nat)
  | screen (height : Nat)

/-- The state after a call. -/
def Op.run (s : State) : Op → State
  | .load env => startLoad env s
  | .unload io => workloadUnloadConfig s io
  | .index env => indexFiles env s
  | .start env => startServices env s
  | .service d io => diskServiceStep s d io
  | .assign file disk io => (workloadAssignFileToDisk s file disk io).2
  | .access file io => (workloadFileAccess s file io).2
  | .reset => workloadResetFileAccessCount s
  | .setRelocate value => workloadSetMainRelocate s value
  | .toggleRelocate => workloadToggleMainRelocate s
  | .relocate ios => workloadFileRelocate s ios
  | .command code ios => workloadCmd s code ios
  | .tick timeStamp => workloadUpdateMainTimeStamp s timeStamp
  | .screen height => workloadUpdateScreen s height

/-! ## Sections -/

/-- What a thread does without being interrupted by the others. -/
inductive Section where
  /-- one step of a disk service; it holds the lock when it counts -/
  | service (disk : DiskPtr) (io : ServiceIo)
  /-- an access thread, before the lock -/
  | transfer (file : FilePtr) (disk : DiskPtr) (io : AccessIo)
  /-- an access thread, under the lock -/
  | access (file : FilePtr) (deltaRead deltaWrite : Nat)
  /-- the reset command -/
  | reset
  /-- the relocate switches, before the lock -/
  | setRelocate (value : Bool)
  /-- the relocate switches, under the lock -/
  | restart
  /-- a relocation: the copy, and the file leaves its disk -/
  | moveOut (file : FilePtr) (disk : DiskPtr) (io : MoveIo)
  /-- a relocation: the file joins a disk -/
  | linkIn (file : FilePtr) (disk : DiskPtr)
  /-- a relocation, under the lock -/
  | moved (file : FilePtr) (disk : DiskPtr) (oldDisk : Option DiskPtr)
  /-- a relocation: the plan of the file is dropped -/
  | unplan (file : FilePtr)
  | index (env : LoadEnv)
  | start (env : LoadEnv)
  | tick (timeStamp : Nat)
  | screen (height : Nat)

/-- The state after a section. -/
def Section.run (s : State) : Section → State
  | .service d io => diskServiceStep s d io
  | .transfer f d io => (accessTransfer s f d io).2
  | .access f deltaRead deltaWrite => accessSection s f deltaRead deltaWrite
  | .reset => workloadResetFileAccessCount s
  | .setRelocate value => s.setRelocate value
  | .restart => relocateSection s
  | .moveOut f d io => (workloadMoveAssignFile s f d io).2
  | .linkIn f d => linkFile s f d
  | .moved f d oldDisk => assignedSection s f d oldDisk
  | .unplan f => s.modifyFile f fun file => { file with reassignDisk := none }
  | .index env => indexFiles env s
  | .start env => startServices env s
  | .tick timeStamp => workloadUpdateMainTimeStamp s timeStamp
  | .screen height => workloadUpdateScreen s height

end Workload
