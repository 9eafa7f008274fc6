import Workload.Correctness.Conservation

/-!
# `Correctness.Veils` — what a load passes on without reading

A `Veil` changes fields that the stages of a load carry along but never look at: the verbose option, the two
switches, the sample of the screen, and every time stamp. All stages but two commute with every veil, so two
loads that start under different veils end under them as well. The exceptions are the reset of the meta
database, which reads the verbose option, and the operation stage, which sets the pause switch and the number
of threads.

* **`veil_loadRest`** — the stages behind the operation commute with every veil.
-/

namespace Workload

/-- A change to what a load does not read. -/
structure Veil where
  verbose : Bool → Bool
  pause : Bool → Bool
  relocate : Bool → Bool
  /-- joined to `def_workload_flag_use_fakeoff` -/
  fakeoff : Bool
  sampled : Sampled → Sampled
  /-- on every time stamp -/
  stamp : Nat → Nat
  /-- on `m_access_threads` -/
  threads : Int → Int

namespace Veil

def file (v : Veil) (x : File) : File := { x with timeStamp := v.stamp x.timeStamp }

def disk (v : Veil) (x : Disk) : Disk :=
  { x with timeStamp := v.stamp x.timeStamp, fakeoffTimeStamp := v.stamp x.fakeoffTimeStamp }

/-- The state under the veil. -/
def on (v : Veil) (s : State) : State :=
  { s with
    opt := { s.opt with verbose := v.verbose s.opt.verbose }
    cfg := { s.cfg with accessThreads := v.threads s.cfg.accessThreads }
    timeStamp := v.stamp s.timeStamp
    timeStampStart := v.stamp s.timeStampStart
    timeStamp1sec := v.stamp s.timeStamp1sec
    useFakeoff := s.useFakeoff || v.fakeoff
    pause := v.pause s.pause
    relocate := v.relocate s.relocate
    readCountPrev := (v.sampled s.sampled).readPrev
    writeCountPrev := (v.sampled s.sampled).writePrev
    readCount1sec := (v.sampled s.sampled).read1sec
    writeCount1sec := (v.sampled s.sampled).write1sec
    files := fun f => v.file (s.files f)
    disks := fun d => v.disk (s.disks d) }

/-- A returned code and the state under the veil. -/
def pair {α : Type*} (v : Veil) (x : α × State) : α × State := (x.1, v.on x.2)

/-- How a load ends, under the veil. -/
def exit (v : Veil) : LoadExit → LoadExit
  | .returned code s => .returned code (v.on s)
  | .undefined s => .undefined (v.on s)
  | .waiting s => .waiting (v.on s)

/-- The end of a stage, under the veil. -/
def load (v : Veil) : Load → Load
  | .ok s => .ok (v.on s)
  | .error e => .error (v.exit e)

variable (v : Veil) (s : State) (f : FilePtr) (d : DiskPtr)

/-! ## Reading and writing under a veil -/

@[simp] theorem on_files : (v.on s).files f = v.file (s.files f) := rfl
@[simp] theorem on_disks : (v.on s).disks d = v.disk (s.disks d) := rfl
@[simp] theorem on_db : (v.on s).db = s.db := rfl
@[simp] theorem on_fs : (v.on s).fs = s.fs := rfl
@[simp] theorem on_timeStamp : (v.on s).timeStamp = v.stamp s.timeStamp := rfl
@[simp] theorem on_diskHead : (v.on s).diskHead = s.diskHead := rfl
@[simp] theorem on_fileHead : (v.on s).fileHead = s.fileHead := rfl

variable {v s f d}

/-- A write that commutes with the veil on the object written commutes with it on the state. -/
theorem on_modifyFile {g g' : File → File} (h : g' (v.file (s.files f)) = v.file (g (s.files f))) :
    (v.on s).modifyFile f g' = v.on (s.modifyFile f g) := by
  have hfiles : Function.update (fun x => v.file (s.files x)) f (g' (v.file (s.files f))) =
      fun x => v.file (Function.update s.files f (g (s.files f)) x) := by
    rw [h]
    exact (Function.comp_update v.file s.files f _).symm
  exact congrArg (fun files => ({ v.on s with files := files } : State)) hfiles

theorem on_modifyDisk {g g' : Disk → Disk} (h : g' (v.disk (s.disks d)) = v.disk (g (s.disks d))) :
    (v.on s).modifyDisk d g' = v.on (s.modifyDisk d g) := by
  have hdisks : Function.update (fun x => v.disk (s.disks x)) d (g' (v.disk (s.disks d))) =
      fun x => v.disk (Function.update s.disks d (g (s.disks d)) x) := by
    rw [h]
    exact (Function.comp_update v.disk s.disks d _).symm
  exact congrArg (fun disks => ({ v.on s with disks := disks } : State)) hdisks

/-- The same write under the veil and without it. -/
theorem on_modifyFile_same {g : File → File} (h : g (v.file (s.files f)) = v.file (g (s.files f))) :
    (v.on s).modifyFile f g = v.on (s.modifyFile f g) := on_modifyFile h

theorem on_modifyDisk_same {g : Disk → Disk} (h : g (v.disk (s.disks d)) = v.disk (g (s.disks d))) :
    (v.on s).modifyDisk d g = v.on (s.modifyDisk d g) := on_modifyDisk h

/-- A new object, allocated under the veil and without it. -/
theorem on_allocFile {x x' : File} (h : x' = v.file x) :
    ({ v.on s with
      files := Function.update (v.on s).files s.nextFile x'
      nextFile := s.nextFile + 1 } : State) =
      v.on { s with files := Function.update s.files s.nextFile x, nextFile := s.nextFile + 1 } := by
  rw [h]
  exact congrArg (fun files => ({ v.on s with files := files, nextFile := s.nextFile + 1 } : State))
    (Function.comp_update v.file s.files s.nextFile x).symm

theorem on_allocDisk {x x' : Disk} (h : x' = v.disk x) :
    ({ v.on s with
      disks := Function.update (v.on s).disks s.nextDisk x'
      nextDisk := s.nextDisk + 1 } : State) =
      v.on { s with disks := Function.update s.disks s.nextDisk x, nextDisk := s.nextDisk + 1 } := by
  rw [h]
  exact congrArg (fun disks => ({ v.on s with disks := disks, nextDisk := s.nextDisk + 1 } : State))
    (Function.comp_update v.disk s.disks s.nextDisk x).symm

theorem on_setPath (dir name : Text) (contents : Option Bytes) :
    (v.on s).setPath dir name contents = v.on (s.setPath dir name contents) := rfl

/-- Two stages that commute with the veil do so one after the other. -/
theorem load_bind {x : Load} {next next' : State → Load} (h : ∀ s, next' (v.on s) = v.load (next s)) :
    (v.load x >>= next') = v.load (x >>= next) := by
  cases x with
  | ok s => exact h s
  | error e => rfl

/-- A fold of steps that commute with the veil commutes with it. -/
theorem on_foldl {α : Type*} {step : State → α → State} (h : ∀ s a, step (v.on s) a = v.on (step s a))
    (l : List α) (s : State) : l.foldl step (v.on s) = v.on (l.foldl step s) := by
  induction l generalizing s with
  | nil => rfl
  | cons a l ih => rw [List.foldl_cons, h, ih, List.foldl_cons]

/-! ## The meta database -/

theorem pair_orFail {x : Int × State} {next next' : State → Int × State}
    (h : ∀ s, next' (v.on s) = v.pair (next s)) : orFail (v.pair x) next' = v.pair (orFail x next) := by
  unfold orFail pair
  dsimp only
  split_ifs
  · rfl
  · exact h x.2

theorem on_querySet (stmt : Stmt) : querySet (v.on s) stmt = v.pair (querySet s stmt) := by
  unfold querySet
  rw [on_db]
  cases s.db <;> rfl

theorem on_querySets (stmts : List Stmt) : querySets (v.on s) stmts = v.pair (querySets s stmts) := by
  induction stmts generalizing s with
  | nil => rfl
  | cons stmt stmts ih =>
      unfold querySets
      rw [on_querySet]
      exact pair_orFail fun s => ih

theorem on_workloadResetDb : workloadResetDb (v.on s) = v.pair (workloadResetDb s) := by
  unfold workloadResetDb
  rw [on_db]
  cases s.db with
  | none => rfl
  | some db => exact on_querySets _

theorem on_workloadUpdateDbFile : workloadUpdateDbFile (v.on s) f = v.pair (workloadUpdateDbFile s f) := by
  have hinsert : insertDbFile (v.on s) f = v.pair (insertDbFile s f) := by
    unfold insertDbFile
    rw [on_files]
    split_ifs with h₁ h₂ h₂
    · rfl
    · exact absurd h₁ h₂
    · exact absurd h₂ h₁
    · rw [show (v.file (s.files f)).id = (s.files f).id from rfl, on_querySet]
      refine pair_orFail fun s => congrArg (Prod.mk (0 : Int)) (on_modifyFile ?_)
      rfl
  have hrow : ∀ s : State, fileRow (v.on s) (v.file (s.files f)) = fileRow s (s.files f) := by
    intro s
    unfold fileRow file
    dsimp only
    cases (s.files f).assignDisk <;> rfl
  unfold workloadUpdateDbFile
  rw [hinsert]
  refine pair_orFail fun s => ?_
  rw [on_files, hrow, show (v.file (s.files f)).id = (s.files f).id from rfl, on_querySet]
  exact pair_orFail fun s => rfl

theorem on_workloadUpdateDbDisk : workloadUpdateDbDisk (v.on s) d = v.pair (workloadUpdateDbDisk s d) := by
  have hinsert : insertDbDisk (v.on s) d = v.pair (insertDbDisk s d) := by
    unfold insertDbDisk
    rw [on_disks]
    split_ifs with h₁ h₂ h₂
    · rfl
    · exact absurd h₁ h₂
    · exact absurd h₂ h₁
    · refine Eq.trans (congrArg (orFail · _) (on_querySet _)) (pair_orFail fun s =>
        congrArg (Prod.mk (0 : Int)) (on_modifyDisk ?_))
      rfl
  unfold workloadUpdateDbDisk
  rw [hinsert]
  refine pair_orFail fun s => ?_
  exact Eq.trans (congrArg (orFail · _) (on_querySet _)) (pair_orFail fun s => rfl)

/-- The rows pushed do not show what a veil covers. -/
theorem on_updateDb (file : Option FilePtr) (disk : Option DiskPtr) :
    updateDb (v.on s) file disk = v.on (updateDb s file disk) := by
  suffices h : workloadUpdateDb (v.on s) file disk = v.pair (workloadUpdateDb s file disk) from
    congrArg Prod.snd h
  unfold workloadUpdateDb
  rw [on_db]
  cases s.db with
  | none => rfl
  | some db =>
      cases file with
      | none =>
          cases disk with
          | none => rfl
          | some d => exact on_workloadUpdateDbDisk
      | some f =>
          dsimp only
          rw [on_workloadUpdateDbFile]
          refine pair_orFail fun s => ?_
          rw [on_files, show (v.file (s.files f)).assignDisk = (s.files f).assignDisk from rfl]
          cases (s.files f).assignDisk with
          | none =>
              cases disk with
              | none => rfl
              | some d => exact on_workloadUpdateDbDisk
          | some home =>
              cases disk with
              | none =>
                  dsimp only
                  rw [on_workloadUpdateDbDisk]
                  exact pair_orFail fun s => rfl
              | some d =>
                  dsimp only
                  rw [on_workloadUpdateDbDisk]
                  split_ifs
                  · rfl
                  · exact pair_orFail fun s => on_workloadUpdateDbDisk

/-! ## Files -/

theorem on_backLink (head : Option FilePtr) : backLink (v.on s) head f = v.on (backLink s head f) := by
  unfold backLink
  cases head with
  | none => rfl
  | some h => exact on_modifyFile rfl

theorem on_linkFile : linkFile (v.on s) f d = v.on (linkFile s f d) := by
  unfold linkFile
  dsimp only
  rw [show ((v.on s).disks d).assignFile = (s.disks d).assignFile from rfl, on_modifyFile_same,
    on_backLink, on_modifyDisk_same, on_modifyFile_same, on_modifyDisk_same] <;> rfl

theorem on_unlinkFile : unlinkFile (v.on s) f d = v.on (unlinkFile s f d) := by
  have hnext : bypassNext (v.on s) f = v.on (bypassNext s f) := by
    unfold bypassNext
    rw [show ((v.on s).files f).assignNext = (s.files f).assignNext from rfl]
    cases (s.files f).assignNext with
    | none => rfl
    | some n => exact on_modifyFile rfl
  have hprev : ∀ s : State, bypassPrev (v.on s) f d = v.on (bypassPrev s f d) := by
    intro s
    unfold bypassPrev
    rw [show ((v.on s).files f).assignPrev = (s.files f).assignPrev from rfl]
    cases (s.files f).assignPrev with
    | none => exact on_modifyDisk rfl
    | some n => exact on_modifyFile rfl
  unfold unlinkFile
  dsimp only
  rw [hnext, hprev, on_modifyDisk_same, on_modifyFile_same] <;> rfl

theorem on_deleteCreated (io : DeassignIo) :
    deleteCreated (v.on s) f d io = v.on (deleteCreated s f d io) := by
  unfold deleteCreated
  rw [show ((v.on s).files f).created = (s.files f).created from rfl]
  split_ifs
  · exact on_modifyFile (s := s.setPath (s.dir d) (s.files f).filename none) rfl
  · exact on_modifyFile rfl
  · rfl

theorem on_workloadDeassignFile (io : DeassignIo) :
    workloadDeassignFile (v.on s) f io = v.pair (workloadDeassignFile s f io) := by
  unfold workloadDeassignFile
  rw [show ((v.on s).files f).assignDisk = (s.files f).assignDisk from rfl]
  cases (s.files f).assignDisk with
  | none => rfl
  | some d =>
      dsimp only
      rw [on_deleteCreated, on_unlinkFile]
      rfl

theorem on_workloadMoveAssignFile (io : MoveIo) :
    workloadMoveAssignFile (v.on s) f d io = v.pair (workloadMoveAssignFile s f d io) := by
  unfold workloadMoveAssignFile
  rw [show ((v.on s).files f).assignDisk = (s.files f).assignDisk from rfl]
  cases (s.files f).assignDisk with
  | none => exact congrArg (Prod.mk (0 : Int)) (on_modifyFile rfl)
  | some home =>
      dsimp only [on_files, on_disks, on_fs]
      rw [show (v.file (s.files f)).filename = (s.files f).filename from rfl,
        show (v.on s).dir home = s.dir home from rfl, show (v.on s).dir d = s.dir d from rfl]
      simp only [on_setPath, on_workloadDeassignFile, on_fs,
        show ∀ s : State, copyContents (v.on s).cfg io = copyContents s.cfg io from fun _ => rfl]
      unfold pair
      dsimp only
      split_ifs
      · rfl
      · rfl
      · rfl
      · rfl
      · rfl
      · exact congrArg (Prod.mk (0 : Int)) (on_modifyFile_same rfl)

theorem on_assignedSection (oldDisk : Option DiskPtr) :
    assignedSection (v.on s) f d oldDisk = v.on (assignedSection s f d oldDisk) := by
  have hstamp : ∀ s : State, updateDb (((v.on s).modifyFile f fun file =>
      { file with timeStamp := (v.on s).timeStamp }).modifyDisk d fun disk =>
        { disk with timeStamp := (v.on s).timeStamp }) (some f) none =
      v.on (updateDb ((s.modifyFile f fun file => { file with timeStamp := s.timeStamp }).modifyDisk d
        fun disk => { disk with timeStamp := s.timeStamp }) (some f) none) := by
    intro s
    rw [on_modifyFile (g := fun file => { file with timeStamp := s.timeStamp }) rfl,
      on_modifyDisk (g := fun disk => { disk with timeStamp := s.timeStamp }) rfl, on_updateDb]
  cases oldDisk with
  | none => exact hstamp s
  | some old =>
      have hold : ((v.on s).modifyDisk old fun disk => { disk with timeStamp := (v.on s).timeStamp }) =
          v.on (s.modifyDisk old fun disk => { disk with timeStamp := s.timeStamp }) := on_modifyDisk rfl
      unfold assignedSection
      dsimp only
      rw [hold]
      exact hstamp _

theorem on_workloadAssignFileToDisk (file : Option FilePtr) (disk : Option DiskPtr) (io : MoveIo) :
    workloadAssignFileToDisk (v.on s) file disk io =
      v.pair (workloadAssignFileToDisk s file disk io) := by
  unfold workloadAssignFileToDisk
  cases file with
  | none => rfl
  | some f =>
      cases disk with
      | none => rfl
      | some d =>
          dsimp only
          rw [show ((v.on s).files f).assignDisk = (s.files f).assignDisk from rfl,
            on_workloadMoveAssignFile]
          generalize workloadMoveAssignFile s f d io = x
          unfold pair
          dsimp only
          split_ifs
          · rfl
          · rw [on_linkFile, on_assignedSection]
          · rfl

/-! ## Disks -/

theorem on_closeService : closeService (v.on s) d = v.on (closeService s d) := by
  unfold closeService
  rw [show ((v.on s).disks d).service = (s.disks d).service from rfl,
    show ((v.on s).disks d).createdPath = (s.disks d).createdPath from rfl]
  cases (s.disks d).service with
  | none => rfl
  | some pc =>
      cases (s.disks d).createdPath with
      | none => exact on_modifyDisk rfl
      | some entry => exact on_modifyDisk (s := deleteTree s (s.directory entry)) rfl

theorem on_workloadFreeDisk : workloadFreeDisk (v.on s) = v.on (workloadFreeDisk s) := by
  have hclose : s.diskHead.foldl closeService (v.on s) = v.on (s.diskHead.foldl closeService s) :=
    on_foldl (fun _ _ => on_closeService) _ _
  exact congrArg (fun s' : State => { s' with diskHead := [] }) hclose

theorem on_workloadFreeDiskArray : workloadFreeDiskArray (v.on s) = v.on (workloadFreeDiskArray s) := by
  unfold workloadFreeDiskArray
  rw [show (v.on s).disk = s.disk from rfl]
  split_ifs <;> rfl

theorem on_workloadUpdateDiskArray (ok : Bool) :
    workloadUpdateDiskArray (v.on s) ok = v.pair (workloadUpdateDiskArray s ok) := by
  unfold workloadUpdateDiskArray
  rw [on_workloadFreeDiskArray]
  dsimp only
  generalize workloadFreeDiskArray s = s
  rw [show (v.on s).diskCount = s.diskCount from rfl, on_diskHead]
  split_ifs <;> rfl

theorem on_workloadNewDisk (id : Nat) (name path : Text) (isCreatePath ok : Bool) :
    workloadNewDisk (v.on s) id name path isCreatePath ok =
      v.pair (workloadNewDisk s id name path isCreatePath ok) := by
  unfold workloadNewDisk
  cases ok with
  | false => rfl
  | true =>
      simp only [if_true]
      generalize (if name = [] then workloadBasename path else (path, name)) = named
      exact congrArg (Prod.mk (some s.nextDisk)) (on_allocDisk rfl)

theorem on_addDisk (env : LoadEnv) (k id : Nat) (node : Node) :
    addDisk env k id node (v.on s) =
      (v.on (addDisk env k id node s).1, (addDisk env k id node s).2) := by
  -- the flag is only ever set
  have hflag : (if parseFakeoff node = -1 then v.on s else { v.on s with useFakeoff := true }) =
      v.on (if parseFakeoff node = -1 then s else { s with useFakeoff := true }) := by
    split_ifs <;> rfl
  unfold addDisk
  dsimp only
  rw [hflag]
  generalize (if parseFakeoff node = -1 then s else { s with useFakeoff := true } : State) = s
  simp only [on_workloadNewDisk]
  split_ifs with h₁ h₂ h₃ h₃
  · rfl
  · rfl
  · exact absurd h₂ h₃
  · exact absurd h₃ h₂
  · unfold pair
    generalize workloadNewDisk s id _ _ _ (env.newDisk k) = x
    obtain ⟨_ | d, s⟩ := x
    · rfl
    · dsimp only
      rw [on_modifyDisk_same] <;> rfl

theorem load_diskLoop (env : LoadEnv) (nodes : List Node) (k id : Nat) :
    diskLoop env nodes k id (v.on s) = v.load (diskLoop env nodes k id s) := by
  induction nodes generalizing k id s with
  | nil => rfl
  | cons node nodes ih =>
      unfold diskLoop
      rw [on_addDisk]
      dsimp only
      split_ifs
      · rfl
      · exact ih _ _

theorem load_loadDisks (env : LoadEnv) (doc : Document) :
    loadDisks env doc (v.on s) = v.load (loadDisks env doc s) := by
  unfold loadDisks
  rw [on_workloadFreeDiskArray, on_workloadFreeDisk]
  dsimp only
  rw [load_diskLoop]
  refine load_bind fun s => ?_
  rw [on_workloadUpdateDiskArray]
  unfold pair
  dsimp only
  split_ifs <;> rfl

/-! ## The files of a load -/

theorem on_workloadFreeFileArray : workloadFreeFileArray (v.on s) = v.on (workloadFreeFileArray s) := by
  unfold workloadFreeFileArray
  rw [show (v.on s).fileOrdered = s.fileOrdered from rfl]
  split_ifs <;> rfl

theorem on_workloadFreeFile (file : Option FilePtr) (io : DeassignIo) :
    workloadFreeFile (v.on s) file io = v.on (workloadFreeFile s file io) := by
  cases file with
  | none => rfl
  | some f =>
      have hleave : (workloadDeassignFile (v.on s) f io).2 = v.on (workloadDeassignFile s f io).2 :=
        congrArg Prod.snd (on_workloadDeassignFile io)
      unfold workloadFreeFile
      dsimp only
      rw [hleave]
      rfl

theorem on_workloadNewFile (id : Nat) (ok : Bool) :
    workloadNewFile (v.on s) id ok = v.pair (workloadNewFile s id ok) := by
  cases ok with
  | false => rfl
  | true =>
      unfold workloadNewFile
      simp only [if_true]
      exact congrArg (Prod.mk (some s.nextFile)) (on_allocFile rfl)

theorem on_setIndexes (index : Nat) (files : List FilePtr) :
    setIndexes index files (v.on s) = v.on (setIndexes index files s) := by
  induction files generalizing index s with
  | nil => rfl
  | cons f files ih =>
      unfold setIndexes
      rw [on_modifyFile_same, ih]
      rfl

theorem on_workloadUpdateFileArray (ok : Bool) :
    workloadUpdateFileArray (v.on s) ok = v.pair (workloadUpdateFileArray s ok) := by
  unfold workloadUpdateFileArray
  rw [on_fileHead, show (v.on s).fileCount = s.fileCount from rfl, on_workloadFreeFileArray]
  split_ifs
  · rfl
  · rfl
  · exact congrArg (Prod.mk (0 : Int)) (on_setIndexes (s := { s with
      fileOrdered := s.fileHead
      fileSorted := s.fileHead
      fileEven := s.fileHead
      fileCount := s.fileHead.length }) _ _)

theorem load_fileLoop (env : LoadEnv) (n id : Nat) :
    fileLoop env n id (v.on s) = v.load (fileLoop env n id s) := by
  induction n generalizing id s with
  | zero => rfl
  | succ n ih =>
      unfold fileLoop
      rw [on_workloadNewFile]
      unfold pair
      split_ifs
      · rfl
      · generalize workloadNewFile s id (env.newFile id) = x
        obtain ⟨_ | f, s⟩ := x
        · rfl
        · exact ih (s := { s with fileHead := s.fileHead ++ [f] }) _

theorem load_loadFiles (env : LoadEnv) : loadFiles env (v.on s) = v.load (loadFiles env s) := by
  unfold loadFiles
  rw [on_workloadFreeFileArray]
  dsimp only
  rw [on_fileHead, on_workloadFreeFile]
  generalize workloadFreeFile (workloadFreeFileArray s) _ _ = s
  rw [show (v.on s).cfg.filecount = s.cfg.filecount from rfl]
  refine Eq.trans (congrArg (· >>= _) (load_fileLoop (s := { s with
    fileHead := []
    cfg := { s.cfg with filecount := if s.cfg.filecount = 0 then defWorkloadConfigDefaultFiles
      else s.cfg.filecount } }) env _ _)) (load_bind fun s => ?_)
  rw [on_workloadUpdateFileArray]
  unfold pair
  dsimp only
  split_ifs <;> rfl

/-! ## Assignment and services -/

theorem on_assignFile (id rand : Nat) : assignFile (v.on s) id rand = v.pair (assignFile s id rand) := by
  unfold assignFile
  rw [show (v.on s).cfg.filesAssignMethod = s.cfg.filesAssignMethod from rfl]
  split_ifs <;> rfl

theorem load_assignLoop (env : LoadEnv) (n id : Nat) :
    assignLoop env n id (v.on s) = v.load (assignLoop env n id s) := by
  have hdisk : ∀ (s : State) f id rand, assignDiskId (v.on s) f id rand = assignDiskId s f id rand :=
    fun _ _ _ _ => rfl
  induction n generalizing id s with
  | zero => rfl
  | succ n ih =>
      unfold assignLoop
      rw [on_assignFile]
      unfold pair
      dsimp only
      generalize assignFile s id (env.rand id) = x
      split_ifs
      · rfl
      · rw [hdisk]
        cases assignDiskId x.2 x.1 id (env.rand id) with
        | none => rfl
        | some diskId =>
            dsimp only
            rw [show (v.on x.2).disk = x.2.disk from rfl]
            cases x.2.disk[diskId]? with
            | none => rfl
            | some d =>
                dsimp only
                rw [on_workloadAssignFileToDisk]
                unfold pair
                dsimp only
                split_ifs
                · rfl
                · exact ih _

theorem on_indexFiles (env : LoadEnv) : indexFiles env (v.on s) = v.on (indexFiles env s) := by
  have hloop : ∀ (ds : List DiskPtr) fileIndex,
      nextFileIndexLoop (v.on s) ds fileIndex = nextFileIndexLoop s ds fileIndex := by
    intro ds
    induction ds with
    | nil => exact fun _ => rfl
    | cons d ds ih => exact fun fileIndex => congrArg _ (ih _)
  unfold indexFiles
  rw [show (v.on s).disk = s.disk from rfl, hloop]
  rfl

theorem on_startServices (env : LoadEnv) : startServices env (v.on s) = v.on (startServices env s) := by
  have hopen : ∀ (s : State) d, openService env (v.on s) d = v.on (openService env s d) := by
    intro s d
    unfold openService
    rw [on_closeService]
    exact on_modifyDisk rfl
  exact on_foldl hopen s.disk (s.setServiceCounts 0 0)

theorem on_serviceSection : serviceSection (v.on s) f d = v.on (serviceSection s f d) := by
  unfold serviceSection
  dsimp only
  rw [on_modifyFile (g := fun file =>
      { file with writeCount := add64 file.writeCount 1, timeStamp := s.timeStamp }) rfl,
    on_modifyDisk (g := fun disk =>
      { disk with writeCount := add64 disk.writeCount 1, timeStamp := s.timeStamp }) rfl]
  have htotals : ∀ (s : State) r w, (v.on s).setTotals r w = v.on (s.setTotals r w) := fun _ _ _ => rfl
  exact (congrArg (fun s => updateDb s (some f) (some d)) (htotals _ _ _)).trans (on_updateDb _ _)

theorem on_diskServiceStep (io : ServiceIo) :
    diskServiceStep (v.on s) d io = v.on (diskServiceStep s d io) := by
  have hpc : ∀ (s : State) pc, setPc (v.on s) d pc = v.on (setPc s d pc) := fun s pc => on_modifyDisk rfl
  have hcounts : ∀ (s : State) r e pc, setPc ((v.on s).setServiceCounts r e) d pc =
      v.on (setPc (s.setServiceCounts r e) d pc) := fun s r e pc => hpc (s.setServiceCounts r e) pc
  unfold diskServiceStep
  rw [show ((v.on s).disks d).service = (s.disks d).service from rfl]
  cases (s.disks d).service with
  | none => rfl
  | some pc =>
      cases pc with
      | start =>
          dsimp only
          split_ifs with h₁ h₂ h₃ h₃
          · exact hcounts s _ _ _
          · rw [on_modifyDisk_same]
            · exact hpc _ _
            · rfl
          · exact absurd h₂ h₃
          · exact absurd h₃ h₂
          · exact hpc _ _
      | walk file =>
          cases file with
          | none => exact hpc _ _
          | some f =>
              dsimp only
              rw [show (v.on s).dir d = s.dir d from rfl,
                show ((v.on s).files f).filename = (s.files f).filename from rfl, on_fs]
              split_ifs
              · exact hcounts s _ _ _
              · exact hcounts s _ _ _
              · exact hpc (s.setPath _ _ _) _
      | count f =>
          dsimp only
          rw [on_serviceSection]
          exact hpc _ _
      | leave => exact hcounts s _ _ _
      | ready => rfl
      | failed => rfl

theorem load_waitServices (events : List WaitEvent) :
    waitServices events (v.on s) = v.load (waitServices events s) := by
  induction events generalizing s with
  | nil => rfl
  | cons event events ih =>
      cases event with
      | service d io =>
          unfold waitServices
          rw [on_diskServiceStep]
          exact ih
      | poll brk =>
          unfold waitServices
          rw [show (v.on s).diskErrorCount = s.diskErrorCount from rfl,
            show (v.on s).diskCount = s.diskCount from rfl,
            show (v.on s).diskReadyCount = s.diskReadyCount from rfl]
          split_ifs
          · rfl
          · rfl
          · rfl
          · exact ih

end Veil

/-! ## The stages behind the operation -/

/-- The stages behind the operation stage. -/
def loadRest (env : LoadEnv) (doc : Document) (s : State) : Load := do
  let s ← loadDisks env doc s
  let s ← loadFiles env s
  let s ← assignLoop env s.fileCount 1 s
  waitServices env.events (startServices env (indexFiles env s))

/-- **The stages behind the operation commute with every veil.** -/
theorem veil_loadRest (v : Veil) (env : LoadEnv) (doc : Document) (s : State) :
    loadRest env doc (v.on s) = v.load (loadRest env doc s) := by
  unfold loadRest
  rw [Veil.load_loadDisks]
  refine Veil.load_bind fun s => ?_
  rw [Veil.load_loadFiles]
  refine Veil.load_bind fun s => ?_
  rw [show (v.on s).fileCount = s.fileCount from rfl, Veil.load_assignLoop]
  refine Veil.load_bind fun s => ?_
  rw [Veil.on_indexFiles, Veil.on_startServices]
  exact Veil.load_waitServices _

/-! ## The stages in front of the operation -/

/-- The database the first stage opens. -/
def metaDb (env : LoadEnv) (node : Node) : Option Db :=
  match node with
  | [] => none
  | _ =>
      let dbType := workloadCheckString (workloadXmlTagAttrValue node "type".toList)
      if strcaseEqual dbType "sqlite3".toList then workloadOpenDb .sqlite3 env.openSqlite3
      else if strcaseEqual dbType "mysql".toList then
        if mysqlLoginOk node then workloadOpenDb .mysql env.openMysql else none
      else none

/-- The whole load, by its stages. -/
theorem parseConfig_eq (env : LoadEnv) (doc : Document) (s : State) :
    parseConfig env doc s = (openMeta env (configNode doc ["meta".toList]) s >>= fun s =>
      dumpMeta s >>= fun s => resetMeta s >>= fun s =>
        loadRest env doc (parseOperation doc (configNode doc ["meta".toList]) s)) := by
  unfold parseConfig loadAssigned loadObjects loadRest
  simp only [bind_assoc]
  rfl

/-- The stage stores what it opened, or fails without a database. -/
theorem openMeta_cases (env : LoadEnv) (node : Node) (s : State) :
    openMeta env node s = .ok (s.setDb (metaDb env node)) ∨
      openMeta env node s = .error (.returned (-1) (s.setDb none)) ∧ metaDb env node = none := by
  unfold openMeta metaDb
  cases node with
  | nil => exact Or.inl rfl
  | cons x rest =>
      dsimp only
      split_ifs
      · cases workloadOpenDb Backend.sqlite3 env.openSqlite3 with
        | none => exact Or.inr ⟨rfl, rfl⟩
        | some db => exact Or.inl rfl
      · rename_i hlogin
        rw [hlogin]
        cases workloadOpenDb Backend.mysql env.openMysql with
        | none => exact Or.inr ⟨rfl, rfl⟩
        | some db => exact Or.inl rfl
      · rename_i hlogin
        rw [Bool.eq_false_of_not_eq_true hlogin]
        exact Or.inr ⟨rfl, rfl⟩
      · exact Or.inl rfl

namespace Veil

variable {v : Veil} {s : State}

theorem load_openMeta (env : LoadEnv) (node : Node) :
    openMeta env node (v.on s) = v.load (openMeta env node s) := by
  unfold openMeta
  cases node with
  | nil => rfl
  | cons x rest =>
      dsimp only
      split_ifs
      · cases workloadOpenDb Backend.sqlite3 env.openSqlite3 <;> rfl
      · cases mysqlLoginOk (x :: rest) with
        | false => rfl
        | true => cases workloadOpenDb Backend.mysql env.openMysql <;> rfl
      · rfl

theorem load_dumpMeta : dumpMeta (v.on s) = v.load (dumpMeta s) := by
  have hquery : ∀ (s : State) stmt, queryGet (v.on s) stmt = v.on (queryGet s stmt) := by
    intro s stmt
    unfold queryGet
    rw [on_db]
    cases s.db <;> rfl
  have hone : ∀ (s : State) (asked : Bool) stmt, (if asked then queryGet (v.on s) stmt else v.on s) =
      v.on (if asked then queryGet s stmt else s) := by
    intro s asked stmt
    cases asked with
    | false => rfl
    | true => exact hquery s stmt
  have hfile : ∀ s : State, (v.on s).opt.dumpFile = s.opt.dumpFile := fun _ => rfl
  unfold dumpMeta
  dsimp only
  rw [show (v.on s).opt.dumpDisk = s.opt.dumpDisk from rfl, hfile, hone, hfile, hone]
  split_ifs <;> rfl

/-- The reset reads the verbose option when it fails. -/
theorem load_resetMeta
    (h : s.db ≠ none → (workloadResetDb s).1 = -1 → v.verbose s.opt.verbose = s.opt.verbose) :
    resetMeta (v.on s) = v.load (resetMeta s) := by
  unfold resetMeta
  rw [on_db]
  cases hdb : s.db with
  | none => rfl
  | some db =>
      have hopt : (workloadResetDb s).2.opt = s.opt := by
        unfold workloadResetDb
        rw [hdb]
        obtain ⟨db', hdb', -⟩ := querySets_snd [.dropFile, .dropDisk, .createDisk, .createFile] s
        dsimp only
        rw [hdb']
        rfl
      dsimp only
      rw [on_workloadResetDb]
      unfold pair
      dsimp only
      by_cases hfailed : (workloadResetDb s).1 = -1
      · rw [if_pos hfailed, if_pos hfailed,
          show (v.on (workloadResetDb s).2).opt.verbose = v.verbose (workloadResetDb s).2.opt.verbose from rfl,
          hopt, h (hdb ▸ Option.some_ne_none db) hfailed]
        split_ifs <;> rfl
      · rw [if_neg hfailed, if_neg hfailed]
        rfl

end Veil

end Workload
