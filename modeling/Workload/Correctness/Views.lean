import Workload.Lib.Intrusive
import Workload.Lib.Ranking
import Workload.Model.Control

/-!
# `Correctness.Views` — the state seen from its components

Each component of the program reads and writes a part of `State`. A *view* is that part as a value of its
own:

* `roster` — what only a load changes: configuration, chains, arrays, windows, names, ids;
* `placement` — the disk lists and who is on which;
* `counters` — the access counters of files, disks and workload;
* `board` — the sorted array with the index of each file;
* `plan` — the disk each file is to be moved to;
* `contents` — the file system and who created its copy;
* `sampled` — the pairs kept by the screen;
* `threads` — where the disk services stand, and the counters they report with.

The lemmas say which views an operation leaves alone (all but the ones it is about). They are `simp` lemmas,
so a proof about one component does not look into operations of the others.
-/

namespace Workload

/-- What only a load changes. -/
structure Roster where
  opt : Opt
  cfg : Cfg
  diskHead : List DiskPtr
  disk : List DiskPtr
  diskCount : Nat
  fileHead : List FilePtr
  fileOrdered : List FilePtr
  fileCount : Nat
  nextFileIndex : Option (List Nat)
  fileId : FilePtr → Nat
  filename : FilePtr → Text
  diskId : DiskPtr → Nat
  diskName : DiskPtr → Text
  diskPath : DiskPtr → Text
  directory : Text → Text

/-- The disk lists: pointers, each file's disk, each disk's head and counter. -/
@[ext]
structure Placement where
  links : Intrusive.Links FilePtr
  home : FilePtr → Option DiskPtr
  head : DiskPtr → Option FilePtr
  count : DiskPtr → Nat

/-- The access counters. -/
@[ext]
structure Counters where
  fileRead : FilePtr → Nat
  fileWrite : FilePtr → Nat
  diskRead : DiskPtr → Nat
  diskWrite : DiskPtr → Nat
  read : Nat
  write : Nat

/-- The file system, and which files are marked created. -/
@[ext]
structure Contents where
  fs : Text → Text → Option Bytes
  created : FilePtr → Bool

/-- The counters at the last sample, and the differences it found. -/
structure Sampled where
  readPrev : Nat
  writePrev : Nat
  read1sec : Nat
  write1sec : Nat

/-- The disk services. -/
structure Threads where
  pc : DiskPtr → Option ServicePc
  createdPath : DiskPtr → Option Text
  ready : Nat
  error : Nat

/-- The directories of the disks. -/
def Roster.dir (r : Roster) (d : DiskPtr) : Text := r.directory (r.diskPath d)

namespace State

def roster (s : State) : Roster where
  opt := s.opt
  cfg := s.cfg
  diskHead := s.diskHead
  disk := s.disk
  diskCount := s.diskCount
  fileHead := s.fileHead
  fileOrdered := s.fileOrdered
  fileCount := s.fileCount
  nextFileIndex := s.nextFileIndex
  fileId f := (s.files f).id
  filename f := (s.files f).filename
  diskId d := (s.disks d).id
  diskName d := (s.disks d).name
  diskPath d := (s.disks d).path
  directory := s.directory

def placement (s : State) : Placement where
  links := ⟨fun f => (s.files f).assignPrev, fun f => (s.files f).assignNext⟩
  home f := (s.files f).assignDisk
  head d := (s.disks d).assignFile
  count d := (s.disks d).assignFileCount

def counters (s : State) : Counters where
  fileRead f := (s.files f).readCount
  fileWrite f := (s.files f).writeCount
  diskRead d := (s.disks d).readCount
  diskWrite d := (s.disks d).writeCount
  read := s.readCount
  write := s.writeCount

def board (s : State) : Ranking.Board FilePtr := ⟨s.fileSorted, fun f => (s.files f).index⟩

def plan (s : State) : FilePtr → Option DiskPtr := fun f => (s.files f).reassignDisk

def contents (s : State) : Contents := ⟨s.fs, fun f => (s.files f).created⟩

def sampled (s : State) : Sampled :=
  ⟨s.readCountPrev, s.writeCountPrev, s.readCount1sec, s.writeCount1sec⟩

def threads (s : State) : Threads where
  pc d := (s.disks d).service
  createdPath d := (s.disks d).createdPath
  ready := s.diskReadyCount
  error := s.diskErrorCount

/-! ## Writes through a pointer -/

variable {s : State} {f : FilePtr} {d : DiskPtr} {g : File → File} {h : Disk → Disk}

/-- A field a write does not mention is the same for every file. -/
theorem modifyFile_field {α : Sort*} {p : File → α} (hp : ∀ x, p (g x) = p x) :
    (fun x => p ((s.modifyFile f g).files x)) = fun x => p (s.files x) := by
  funext x
  rw [modifyFile_files]
  split_ifs with hx
  · rw [hx, hp]
  · rfl

theorem modifyDisk_field {α : Sort*} {p : Disk → α} (hp : ∀ x, p (h x) = p x) :
    (fun x => p ((s.modifyDisk d h).disks x)) = fun x => p (s.disks x) := by
  funext x
  rw [modifyDisk_disks]
  split_ifs with hx
  · rw [hx, hp]
  · rfl

@[simp] theorem roster_modifyFile (hid : ∀ x, (g x).id = x.id)
    (hname : ∀ x, (g x).filename = x.filename) : (s.modifyFile f g).roster = s.roster := by
  simp only [roster, modifyFile_field hid, modifyFile_field hname]
  rfl

@[simp] theorem placement_modifyFile (hprev : ∀ x, (g x).assignPrev = x.assignPrev)
    (hnext : ∀ x, (g x).assignNext = x.assignNext)
    (hdisk : ∀ x, (g x).assignDisk = x.assignDisk) :
    (s.modifyFile f g).placement = s.placement := by
  simp only [placement, modifyFile_field hprev, modifyFile_field hnext, modifyFile_field hdisk]
  rfl

@[simp] theorem counters_modifyFile (hread : ∀ x, (g x).readCount = x.readCount)
    (hwrite : ∀ x, (g x).writeCount = x.writeCount) : (s.modifyFile f g).counters = s.counters := by
  simp only [counters, modifyFile_field hread, modifyFile_field hwrite]
  rfl

@[simp] theorem board_modifyFile (hindex : ∀ x, (g x).index = x.index) :
    (s.modifyFile f g).board = s.board := by
  simp only [board, modifyFile_field hindex]
  rfl

@[simp] theorem plan_modifyFile (hplan : ∀ x, (g x).reassignDisk = x.reassignDisk) :
    (s.modifyFile f g).plan = s.plan := modifyFile_field hplan

@[simp] theorem contents_modifyFile (hcreated : ∀ x, (g x).created = x.created) :
    (s.modifyFile f g).contents = s.contents := by
  simp only [contents, modifyFile_field hcreated]
  rfl

@[simp] theorem modifyFile_views : (s.modifyFile f g).sampled = s.sampled ∧
    (s.modifyFile f g).threads = s.threads := ⟨rfl, rfl⟩

@[simp] theorem roster_modifyDisk (hid : ∀ x, (h x).id = x.id) (hname : ∀ x, (h x).name = x.name)
    (hpath : ∀ x, (h x).path = x.path) : (s.modifyDisk d h).roster = s.roster := by
  simp only [roster, modifyDisk_field hid, modifyDisk_field hname, modifyDisk_field hpath]
  rfl

@[simp] theorem placement_modifyDisk (hhead : ∀ x, (h x).assignFile = x.assignFile)
    (hcount : ∀ x, (h x).assignFileCount = x.assignFileCount) :
    (s.modifyDisk d h).placement = s.placement := by
  simp only [placement, modifyDisk_field hhead, modifyDisk_field hcount]
  rfl

@[simp] theorem counters_modifyDisk (hread : ∀ x, (h x).readCount = x.readCount)
    (hwrite : ∀ x, (h x).writeCount = x.writeCount) : (s.modifyDisk d h).counters = s.counters := by
  simp only [counters, modifyDisk_field hread, modifyDisk_field hwrite]
  rfl

@[simp] theorem threads_modifyDisk (hpc : ∀ x, (h x).service = x.service)
    (hpath : ∀ x, (h x).createdPath = x.createdPath) : (s.modifyDisk d h).threads = s.threads := by
  simp only [threads, modifyDisk_field hpc, modifyDisk_field hpath]
  rfl

@[simp] theorem modifyDisk_views : (s.modifyDisk d h).board = s.board ∧
    (s.modifyDisk d h).plan = s.plan ∧ (s.modifyDisk d h).contents = s.contents ∧
    (s.modifyDisk d h).sampled = s.sampled := ⟨rfl, rfl, rfl, rfl⟩

@[simp] theorem setPath_views {dir name : Text} {c : Option Bytes} :
    (s.setPath dir name c).roster = s.roster ∧ (s.setPath dir name c).placement = s.placement ∧
    (s.setPath dir name c).counters = s.counters ∧ (s.setPath dir name c).board = s.board ∧
    (s.setPath dir name c).plan = s.plan ∧ (s.setPath dir name c).sampled = s.sampled ∧
    (s.setPath dir name c).threads = s.threads :=
  ⟨rfl, rfl, rfl, rfl, rfl, rfl, rfl⟩

@[simp] theorem setDb_views {db : Option Db} :
    (s.setDb db).roster = s.roster ∧ (s.setDb db).placement = s.placement ∧
    (s.setDb db).counters = s.counters ∧ (s.setDb db).board = s.board ∧
    (s.setDb db).plan = s.plan ∧ (s.setDb db).contents = s.contents ∧
    (s.setDb db).sampled = s.sampled ∧
    (s.setDb db).threads = s.threads :=
  ⟨rfl, rfl, rfl, rfl, rfl, rfl, rfl, rfl⟩

@[simp] theorem setTotals_views {r w : Nat} :
    (s.setTotals r w).roster = s.roster ∧ (s.setTotals r w).placement = s.placement ∧
    (s.setTotals r w).board = s.board ∧ (s.setTotals r w).plan = s.plan ∧
    (s.setTotals r w).contents = s.contents ∧ (s.setTotals r w).sampled = s.sampled ∧
    (s.setTotals r w).threads = s.threads :=
  ⟨rfl, rfl, rfl, rfl, rfl, rfl, rfl⟩

@[simp] theorem setSorted_views {i : Nat} {x : FilePtr} :
    (s.setSorted i x).roster = s.roster ∧ (s.setSorted i x).placement = s.placement ∧
    (s.setSorted i x).counters = s.counters ∧ (s.setSorted i x).plan = s.plan ∧
    (s.setSorted i x).contents = s.contents ∧ (s.setSorted i x).sampled = s.sampled ∧
    (s.setSorted i x).threads = s.threads :=
  ⟨rfl, rfl, rfl, rfl, rfl, rfl, rfl⟩

@[simp] theorem setServiceCounts_views {r e : Nat} :
    (s.setServiceCounts r e).roster = s.roster ∧ (s.setServiceCounts r e).placement = s.placement ∧
    (s.setServiceCounts r e).counters = s.counters ∧ (s.setServiceCounts r e).board = s.board ∧
    (s.setServiceCounts r e).plan = s.plan ∧ (s.setServiceCounts r e).contents = s.contents ∧
    (s.setServiceCounts r e).sampled = s.sampled :=
  ⟨rfl, rfl, rfl, rfl, rfl, rfl, rfl⟩

@[simp] theorem setRelocate_views {b : Bool} :
    (s.setRelocate b).roster = s.roster ∧ (s.setRelocate b).placement = s.placement ∧
    (s.setRelocate b).counters = s.counters ∧ (s.setRelocate b).board = s.board ∧
    (s.setRelocate b).plan = s.plan ∧ (s.setRelocate b).contents = s.contents ∧
    (s.setRelocate b).sampled = s.sampled ∧
    (s.setRelocate b).threads = s.threads :=
  ⟨rfl, rfl, rfl, rfl, rfl, rfl, rfl, rfl⟩

end State

/-! ## The meta database -/

/-- Everything but the meta database is as before. -/
structure Frame (s s' : State) : Prop where
  roster : s'.roster = s.roster
  placement : s'.placement = s.placement
  counters : s'.counters = s.counters
  board : s'.board = s.board
  plan : s'.plan = s.plan
  contents : s'.contents = s.contents
  sampled : s'.sampled = s.sampled
  threads : s'.threads = s.threads

theorem Frame.refl (s : State) : Frame s s := ⟨rfl, rfl, rfl, rfl, rfl, rfl, rfl, rfl⟩

theorem Frame.trans {s₁ s₂ s₃ : State} (h₁ : Frame s₁ s₂) (h₂ : Frame s₂ s₃) : Frame s₁ s₃ :=
  ⟨h₂.roster.trans h₁.roster, h₂.placement.trans h₁.placement, h₂.counters.trans h₁.counters,
    h₂.board.trans h₁.board, h₂.plan.trans h₁.plan, h₂.contents.trans h₁.contents,
    h₂.sampled.trans h₁.sampled, h₂.threads.trans h₁.threads⟩

/-- What every query and every flag write keeps, `workload_update_db` keeps. -/
theorem orFail_rel (R : State → State → Prop) (htrans : ∀ {a b c}, R a b → R b c → R a c) {s : State}
    {x : Int × State} {next : State → Int × State} (hx : R s x.2) (hnext : ∀ s', R s' (next s').2) :
    R s (orFail x next).2 := by
  unfold orFail
  split_ifs
  · exact hx
  · exact htrans hx (hnext x.2)

/-- **Rule for `workload_update_db`.** A reflexive and transitive relation that holds across the push of a file
    row and of a disk row holds across the whole call. -/
theorem updateDb_rule {R : State → State → Prop} (hrefl : ∀ s, R s s)
    (htrans : ∀ {a b c}, R a b → R b c → R a c) (hfile : ∀ s f, R s (workloadUpdateDbFile s f).2)
    (hdisk : ∀ s d, R s (workloadUpdateDbDisk s d).2)
    (s : State) (file : Option FilePtr) (disk : Option DiskPtr) : R s (updateDb s file disk) := by
  unfold updateDb workloadUpdateDb
  cases s.db with
  | none => exact hrefl s
  | some db =>
      cases file with
      | none =>
          cases disk with
          | none => exact hrefl s
          | some d => exact hdisk s d
      | some f =>
          refine orFail_rel R htrans (hfile s f) fun s => ?_
          cases (s.files f).assignDisk with
          | none =>
              cases disk with
              | none => exact hrefl s
              | some d => exact hdisk s d
          | some home =>
              cases disk with
              | none => exact orFail_rel R htrans (hdisk s home) hrefl
              | some d =>
                  dsimp only
                  split_ifs
                  · exact hdisk s home
                  · exact orFail_rel R htrans (hdisk s home) fun s => hdisk s d

/-- The push of a file row keeps what every query and every write of an inserted flag keeps. -/
theorem workloadUpdateDbFile_rel {R : State → State → Prop} (hrefl : ∀ s, R s s)
    (htrans : ∀ {a b c}, R a b → R b c → R a c) (hquery : ∀ s stmt, R s (querySet s stmt).2)
    (hflag : ∀ s f, R s (s.modifyFile f fun file => { file with insertedDb := true }))
    (s : State) (f : FilePtr) : R s (workloadUpdateDbFile s f).2 := by
  refine orFail_rel R htrans ?_ fun s => orFail_rel R htrans (hquery s _) hrefl
  unfold insertDbFile
  split_ifs
  · exact hrefl s
  · exact orFail_rel R htrans (hquery s _) fun s => hflag s f

/-- The push of a disk row keeps what every query and every write of an inserted flag keeps. -/
theorem workloadUpdateDbDisk_rel {R : State → State → Prop} (hrefl : ∀ s, R s s)
    (htrans : ∀ {a b c}, R a b → R b c → R a c) (hquery : ∀ s stmt, R s (querySet s stmt).2)
    (hflag : ∀ s d, R s (s.modifyDisk d fun disk => { disk with insertedDb := true }))
    (s : State) (d : DiskPtr) : R s (workloadUpdateDbDisk s d).2 := by
  refine orFail_rel R htrans ?_ fun s => orFail_rel R htrans (hquery s _) hrefl
  unfold insertDbDisk
  split_ifs
  · exact hrefl s
  · exact orFail_rel R htrans (hquery s _) fun s => hflag s d

/-- What every query and every write of an inserted flag keeps, the whole call keeps. -/
theorem updateDb_rel {R : State → State → Prop} (hrefl : ∀ s, R s s)
    (htrans : ∀ {a b c}, R a b → R b c → R a c) (hquery : ∀ s stmt, R s (querySet s stmt).2)
    (hfile : ∀ s f, R s (s.modifyFile f fun file => { file with insertedDb := true }))
    (hdisk : ∀ s d, R s (s.modifyDisk d fun disk => { disk with insertedDb := true }))
    (s : State) (file : Option FilePtr) (disk : Option DiskPtr) : R s (updateDb s file disk) :=
  updateDb_rule hrefl htrans (workloadUpdateDbFile_rel hrefl htrans hquery hfile)
    (workloadUpdateDbDisk_rel hrefl htrans hquery hdisk) s file disk

theorem querySet_frame (s : State) (stmt : Stmt) : Frame s (querySet s stmt).2 := by
  unfold querySet
  cases s.db with
  | none => exact Frame.refl s
  | some db => constructor <;> simp

/-- The pushes change nothing but the database and the inserted flags. -/
theorem workloadUpdateDbFile_frame (s : State) (f : FilePtr) : Frame s (workloadUpdateDbFile s f).2 :=
  workloadUpdateDbFile_rel Frame.refl Frame.trans querySet_frame (fun s f => by constructor <;> simp) s f

theorem workloadUpdateDbDisk_frame (s : State) (d : DiskPtr) : Frame s (workloadUpdateDbDisk s d).2 :=
  workloadUpdateDbDisk_rel Frame.refl Frame.trans querySet_frame (fun s d => by constructor <;> simp) s d

theorem updateDb_frame (s : State) (file : Option FilePtr) (disk : Option DiskPtr) :
    Frame s (updateDb s file disk) :=
  updateDb_rule Frame.refl Frame.trans workloadUpdateDbFile_frame workloadUpdateDbDisk_frame s file disk

@[simp] theorem updateDb_views {s : State} {file : Option FilePtr} {disk : Option DiskPtr} :
    (updateDb s file disk).roster = s.roster ∧ (updateDb s file disk).placement = s.placement ∧
    (updateDb s file disk).counters = s.counters ∧ (updateDb s file disk).board = s.board ∧
    (updateDb s file disk).plan = s.plan ∧ (updateDb s file disk).contents = s.contents ∧
    (updateDb s file disk).sampled = s.sampled ∧
    (updateDb s file disk).threads = s.threads :=
  have h := updateDb_frame s file disk
  ⟨h.roster, h.placement, h.counters, h.board, h.plan, h.contents, h.sampled, h.threads⟩

variable {s : State} {f : FilePtr} {d : DiskPtr}

/-! ## Moving a file -/

@[simp] theorem deleteCreated_views {io : DeassignIo} :
    (deleteCreated s f d io).roster = s.roster ∧ (deleteCreated s f d io).placement = s.placement ∧
    (deleteCreated s f d io).counters = s.counters ∧ (deleteCreated s f d io).board = s.board ∧
    (deleteCreated s f d io).plan = s.plan ∧ (deleteCreated s f d io).sampled = s.sampled ∧
    (deleteCreated s f d io).threads = s.threads := by
  unfold deleteCreated
  split_ifs <;> simp

@[simp] theorem bypassNext_views :
    (bypassNext s f).roster = s.roster ∧ (bypassNext s f).counters = s.counters ∧
    (bypassNext s f).board = s.board ∧ (bypassNext s f).plan = s.plan ∧
    (bypassNext s f).contents = s.contents ∧ (bypassNext s f).sampled = s.sampled ∧
    (bypassNext s f).threads = s.threads := by
  unfold bypassNext
  split <;> simp

@[simp] theorem bypassPrev_views :
    (bypassPrev s f d).roster = s.roster ∧ (bypassPrev s f d).counters = s.counters ∧
    (bypassPrev s f d).board = s.board ∧ (bypassPrev s f d).plan = s.plan ∧
    (bypassPrev s f d).contents = s.contents ∧ (bypassPrev s f d).sampled = s.sampled ∧
    (bypassPrev s f d).threads = s.threads := by
  unfold bypassPrev
  split <;> simp

@[simp] theorem unlinkFile_views :
    (unlinkFile s f d).roster = s.roster ∧ (unlinkFile s f d).counters = s.counters ∧
    (unlinkFile s f d).board = s.board ∧ (unlinkFile s f d).plan = s.plan ∧
    (unlinkFile s f d).contents = s.contents ∧ (unlinkFile s f d).sampled = s.sampled ∧
    (unlinkFile s f d).threads = s.threads := by
  simp [unlinkFile]

@[simp] theorem backLink_views {head : Option FilePtr} :
    (backLink s head f).roster = s.roster ∧ (backLink s head f).counters = s.counters ∧
    (backLink s head f).board = s.board ∧ (backLink s head f).plan = s.plan ∧
    (backLink s head f).contents = s.contents ∧ (backLink s head f).sampled = s.sampled ∧
    (backLink s head f).threads = s.threads := by
  unfold backLink
  split <;> simp

@[simp] theorem linkFile_views :
    (linkFile s f d).roster = s.roster ∧ (linkFile s f d).counters = s.counters ∧
    (linkFile s f d).board = s.board ∧ (linkFile s f d).plan = s.plan ∧
    (linkFile s f d).contents = s.contents ∧ (linkFile s f d).sampled = s.sampled ∧
    (linkFile s f d).threads = s.threads := by
  simp [linkFile]

@[simp] theorem workloadDeassignFile_views {io : DeassignIo} :
    (workloadDeassignFile s f io).2.roster = s.roster ∧
    (workloadDeassignFile s f io).2.counters = s.counters ∧
    (workloadDeassignFile s f io).2.board = s.board ∧
    (workloadDeassignFile s f io).2.plan = s.plan ∧
    (workloadDeassignFile s f io).2.sampled = s.sampled ∧
    (workloadDeassignFile s f io).2.threads = s.threads := by
  unfold workloadDeassignFile
  split <;> simp

@[simp] theorem workloadMoveAssignFile_views {io : MoveIo} :
    (workloadMoveAssignFile s f d io).2.roster = s.roster ∧
    (workloadMoveAssignFile s f d io).2.counters = s.counters ∧
    (workloadMoveAssignFile s f d io).2.board = s.board ∧
    (workloadMoveAssignFile s f d io).2.plan = s.plan ∧
    (workloadMoveAssignFile s f d io).2.sampled = s.sampled ∧
    (workloadMoveAssignFile s f d io).2.threads = s.threads := by
  unfold workloadMoveAssignFile
  dsimp only
  split
  · simp
  · split_ifs <;> simp

theorem assignedSection_frame (oldDisk : Option DiskPtr) :
    Frame s (assignedSection s f d oldDisk) := by
  unfold assignedSection
  cases oldDisk <;> constructor <;> simp

@[simp] theorem assignedSection_views {oldDisk : Option DiskPtr} :
    (assignedSection s f d oldDisk).roster = s.roster ∧
    (assignedSection s f d oldDisk).placement = s.placement ∧
    (assignedSection s f d oldDisk).counters = s.counters ∧
    (assignedSection s f d oldDisk).board = s.board ∧
    (assignedSection s f d oldDisk).plan = s.plan ∧
    (assignedSection s f d oldDisk).contents = s.contents ∧
    (assignedSection s f d oldDisk).sampled = s.sampled ∧
    (assignedSection s f d oldDisk).threads = s.threads :=
  have h := assignedSection_frame oldDisk
  ⟨h.roster, h.placement, h.counters, h.board, h.plan, h.contents, h.sampled, h.threads⟩

@[simp] theorem workloadAssignFileToDisk_views {file : Option FilePtr} {disk : Option DiskPtr}
    {io : MoveIo} :
    (workloadAssignFileToDisk s file disk io).2.roster = s.roster ∧
    (workloadAssignFileToDisk s file disk io).2.counters = s.counters ∧
    (workloadAssignFileToDisk s file disk io).2.board = s.board ∧
    (workloadAssignFileToDisk s file disk io).2.plan = s.plan ∧
    (workloadAssignFileToDisk s file disk io).2.sampled = s.sampled ∧
    (workloadAssignFileToDisk s file disk io).2.threads = s.threads := by
  unfold workloadAssignFileToDisk
  split
  · dsimp only
    split_ifs <;> simp
  · simp

@[simp] theorem relocateFile_views {io : MoveIo} :
    (relocateFile s f io).roster = s.roster ∧ (relocateFile s f io).counters = s.counters ∧
    (relocateFile s f io).board = s.board ∧ (relocateFile s f io).sampled = s.sampled ∧
    (relocateFile s f io).threads = s.threads := by
  unfold relocateFile
  split <;> simp

/-- A loop keeps what each round keeps. -/
theorem foldl_keeps {α β : Type*} {p : State → α} {g : State → β → State}
    (h : ∀ s b, p (g s b) = p s) (l : List β) (s : State) : p (l.foldl g s) = p s := by
  induction l generalizing s with
  | nil => rfl
  | cons b l ih => rw [List.foldl_cons, ih, h]

@[simp] theorem workloadFileRelocate_views {ios : FilePtr → MoveIo} :
    (workloadFileRelocate s ios).roster = s.roster ∧
    (workloadFileRelocate s ios).counters = s.counters ∧
    (workloadFileRelocate s ios).board = s.board ∧
    (workloadFileRelocate s ios).sampled = s.sampled ∧
    (workloadFileRelocate s ios).threads = s.threads :=
  ⟨foldl_keeps (p := State.roster) (fun s f => by simp) _ s,
    foldl_keeps (p := State.counters) (fun s f => by simp) _ s,
    foldl_keeps (p := State.board) (fun s f => by simp) _ s,
    foldl_keeps (p := State.sampled) (fun s f => by simp) _ s,
    foldl_keeps (p := State.threads) (fun s f => by simp) _ s⟩

/-! ## Accessing a file -/

@[simp] theorem accessTransfer_views {io : AccessIo} :
    (accessTransfer s f d io).2.roster = s.roster ∧
    (accessTransfer s f d io).2.placement = s.placement ∧
    (accessTransfer s f d io).2.counters = s.counters ∧
    (accessTransfer s f d io).2.board = s.board ∧
    (accessTransfer s f d io).2.plan = s.plan ∧
    (accessTransfer s f d io).2.sampled = s.sampled ∧
    (accessTransfer s f d io).2.threads = s.threads := by
  unfold accessTransfer
  dsimp only
  cases s.fs (s.dir d) (s.files f).filename with
  | none => split_ifs <;> simp
  | some contents =>
      dsimp only
      split_ifs <;> simp

@[simp] theorem countAccess_views {r w : Nat} :
    (countAccess s f r w).roster = s.roster ∧ (countAccess s f r w).placement = s.placement ∧
    (countAccess s f r w).board = s.board ∧ (countAccess s f r w).plan = s.plan ∧
    (countAccess s f r w).contents = s.contents ∧ (countAccess s f r w).sampled = s.sampled ∧
    (countAccess s f r w).threads = s.threads := by
  unfold countAccess
  dsimp only
  split <;> simp

@[simp] theorem sortIndex_views {count i : Nat} :
    (sortIndex f count i s).roster = s.roster ∧
    (sortIndex f count i s).placement = s.placement ∧
    (sortIndex f count i s).counters = s.counters ∧ (sortIndex f count i s).plan = s.plan ∧
    (sortIndex f count i s).contents = s.contents ∧
    (sortIndex f count i s).sampled = s.sampled ∧
    (sortIndex f count i s).threads = s.threads := by
  induction i generalizing s with
  | zero => simp [sortIndex]
  | succ i ih =>
      unfold sortIndex
      dsimp only
      split_ifs
      · simp
      · simp [ih]

@[simp] theorem planWindow_views {n i : Nat} :
    (planWindow d n i s).roster = s.roster ∧ (planWindow d n i s).placement = s.placement ∧
    (planWindow d n i s).counters = s.counters ∧ (planWindow d n i s).board = s.board ∧
    (planWindow d n i s).contents = s.contents ∧ (planWindow d n i s).sampled = s.sampled ∧
    (planWindow d n i s).threads = s.threads := by
  induction n generalizing i s with
  | zero => simp [planWindow]
  | succ n ih => simp [planWindow, ih]

@[simp] theorem planLoop_views {next : List Nat} {n i j : Nat} :
    (planLoop next n i j s).roster = s.roster ∧ (planLoop next n i j s).placement = s.placement ∧
    (planLoop next n i j s).counters = s.counters ∧ (planLoop next n i j s).board = s.board ∧
    (planLoop next n i j s).contents = s.contents ∧
    (planLoop next n i j s).sampled = s.sampled ∧
    (planLoop next n i j s).threads = s.threads := by
  induction n generalizing i j s with
  | zero => simp [planLoop]
  | succ n ih => simp [planLoop, ih]

@[simp] theorem planReassign_views :
    (planReassign s).roster = s.roster ∧ (planReassign s).placement = s.placement ∧
    (planReassign s).counters = s.counters ∧ (planReassign s).board = s.board ∧
    (planReassign s).contents = s.contents ∧ (planReassign s).sampled = s.sampled ∧
    (planReassign s).threads = s.threads := by
  unfold planReassign
  split <;> simp

@[simp] theorem accessSection_views {r w : Nat} :
    (accessSection s f r w).roster = s.roster ∧
    (accessSection s f r w).placement = s.placement ∧
    (accessSection s f r w).counters = (countAccess s f r w).counters ∧
    (accessSection s f r w).contents = s.contents ∧
    (accessSection s f r w).sampled = s.sampled ∧
    (accessSection s f r w).threads = s.threads := by
  unfold accessSection
  simp

@[simp] theorem workloadFileAccess_views {file : Option FilePtr} {io : AccessIo} :
    (workloadFileAccess s file io).2.roster = s.roster ∧
    (workloadFileAccess s file io).2.placement = s.placement ∧
    (workloadFileAccess s file io).2.sampled = s.sampled ∧
    (workloadFileAccess s file io).2.threads = s.threads := by
  unfold workloadFileAccess
  split
  · simp
  · split
    · simp
    · dsimp only
      split_ifs <;> simp

/-! ## Counting and resetting -/

/-- Everything but the counters and the meta database is as before. -/
structure CounterFrame (s s' : State) : Prop where
  roster : s'.roster = s.roster
  placement : s'.placement = s.placement
  board : s'.board = s.board
  plan : s'.plan = s.plan
  contents : s'.contents = s.contents
  sampled : s'.sampled = s.sampled
  threads : s'.threads = s.threads

theorem CounterFrame.refl (s : State) : CounterFrame s s := ⟨rfl, rfl, rfl, rfl, rfl, rfl, rfl⟩

theorem CounterFrame.trans {s₁ s₂ s₃ : State} (h₁ : CounterFrame s₁ s₂) (h₂ : CounterFrame s₂ s₃) :
    CounterFrame s₁ s₃ :=
  ⟨h₂.roster.trans h₁.roster, h₂.placement.trans h₁.placement, h₂.board.trans h₁.board,
    h₂.plan.trans h₁.plan, h₂.contents.trans h₁.contents, h₂.sampled.trans h₁.sampled, h₂.threads.trans h₁.threads⟩

/-- A loop keeps a reflexive and transitive relation that each round keeps. -/
theorem foldl_rel {β : Type*} (R : State → State → Prop) (hrefl : ∀ s, R s s)
    (htrans : ∀ {a b c}, R a b → R b c → R a c) {g : State → β → State}
    (hg : ∀ s b, R s (g s b)) (l : List β) (s : State) : R s (l.foldl g s) := by
  induction l generalizing s with
  | nil => exact hrefl s
  | cons b l ih => exact htrans (hg s b) (ih (g s b))

theorem resetFile_frame (s : State) (f : FilePtr) : CounterFrame s (resetFile s f) := by
  unfold resetFile
  constructor <;> simp

theorem resetDisk_frame (s : State) (d : DiskPtr) : CounterFrame s (resetDisk s d) := by
  unfold resetDisk
  constructor <;> simp

theorem restartDisk_frame (s : State) (d : DiskPtr) : CounterFrame s (restartDisk s d) := by
  unfold restartDisk
  constructor <;> simp

theorem serviceSection_frame (s : State) (f : FilePtr) (d : DiskPtr) :
    CounterFrame s (serviceSection s f d) := by
  unfold serviceSection
  constructor <;> simp

theorem relocateSection_frame (s : State) : CounterFrame s (relocateSection s) :=
  foldl_rel CounterFrame CounterFrame.refl CounterFrame.trans restartDisk_frame _ s

theorem workloadResetFileAccessCount_frame (s : State) :
    CounterFrame s (workloadResetFileAccessCount s) := by
  have hfiles := foldl_rel CounterFrame CounterFrame.refl CounterFrame.trans resetFile_frame
  have hdisks := foldl_rel CounterFrame CounterFrame.refl CounterFrame.trans resetDisk_frame
  unfold workloadResetFileAccessCount
  refine (hfiles s.fileHead s).trans ((hdisks (s.fileHead.foldl resetFile s).diskHead _).trans ?_)
  constructor <;> simp

@[simp] theorem serviceSection_views :
    (serviceSection s f d).roster = s.roster ∧ (serviceSection s f d).placement = s.placement ∧
    (serviceSection s f d).board = s.board ∧ (serviceSection s f d).plan = s.plan ∧
    (serviceSection s f d).contents = s.contents ∧ (serviceSection s f d).sampled = s.sampled ∧
    (serviceSection s f d).threads = s.threads :=
  have h := serviceSection_frame s f d
  ⟨h.roster, h.placement, h.board, h.plan, h.contents, h.sampled, h.threads⟩

@[simp] theorem relocateSection_views :
    (relocateSection s).roster = s.roster ∧ (relocateSection s).placement = s.placement ∧
    (relocateSection s).board = s.board ∧ (relocateSection s).plan = s.plan ∧
    (relocateSection s).contents = s.contents ∧ (relocateSection s).sampled = s.sampled ∧
    (relocateSection s).threads = s.threads :=
  have h := relocateSection_frame s
  ⟨h.roster, h.placement, h.board, h.plan, h.contents, h.sampled, h.threads⟩

@[simp] theorem workloadResetFileAccessCount_views :
    (workloadResetFileAccessCount s).roster = s.roster ∧
    (workloadResetFileAccessCount s).placement = s.placement ∧
    (workloadResetFileAccessCount s).board = s.board ∧
    (workloadResetFileAccessCount s).plan = s.plan ∧
    (workloadResetFileAccessCount s).contents = s.contents ∧
    (workloadResetFileAccessCount s).sampled = s.sampled ∧
    (workloadResetFileAccessCount s).threads = s.threads :=
  have h := workloadResetFileAccessCount_frame s
  ⟨h.roster, h.placement, h.board, h.plan, h.contents, h.sampled, h.threads⟩

@[simp] theorem relocateSwitch_views {b : Bool} :
    (workloadSetMainRelocate s b).roster = s.roster ∧
    (workloadSetMainRelocate s b).placement = s.placement ∧
    (workloadSetMainRelocate s b).board = s.board ∧
    (workloadSetMainRelocate s b).plan = s.plan ∧
    (workloadSetMainRelocate s b).contents = s.contents ∧
    (workloadSetMainRelocate s b).sampled = s.sampled ∧
    (workloadSetMainRelocate s b).threads = s.threads := by
  simp [workloadSetMainRelocate]

/-- The toggle is a set of the other value. -/
theorem workloadToggleMainRelocate_eq :
    workloadToggleMainRelocate s = workloadSetMainRelocate s !s.relocate := rfl

@[simp] theorem workloadUpdateMainTimeStamp_views {t : Nat} :
    (workloadUpdateMainTimeStamp s t).roster = s.roster ∧
    (workloadUpdateMainTimeStamp s t).placement = s.placement ∧
    (workloadUpdateMainTimeStamp s t).counters = s.counters ∧
    (workloadUpdateMainTimeStamp s t).board = s.board ∧
    (workloadUpdateMainTimeStamp s t).plan = s.plan ∧
    (workloadUpdateMainTimeStamp s t).contents = s.contents ∧
    (workloadUpdateMainTimeStamp s t).sampled = s.sampled ∧
    (workloadUpdateMainTimeStamp s t).threads = s.threads :=
  ⟨rfl, rfl, rfl, rfl, rfl, rfl, rfl, rfl⟩

/-! ## Services and screen -/

@[simp] theorem setPc_views {pc : ServicePc} :
    (setPc s d pc).roster = s.roster ∧ (setPc s d pc).placement = s.placement ∧
    (setPc s d pc).counters = s.counters ∧ (setPc s d pc).board = s.board ∧
    (setPc s d pc).plan = s.plan ∧ (setPc s d pc).contents = s.contents ∧
    (setPc s d pc).sampled = s.sampled := by
  simp [setPc]

@[simp] theorem diskServiceStep_views {io : ServiceIo} :
    (diskServiceStep s d io).roster = s.roster ∧
    (diskServiceStep s d io).placement = s.placement ∧
    (diskServiceStep s d io).board = s.board ∧ (diskServiceStep s d io).plan = s.plan ∧
    (diskServiceStep s d io).sampled = s.sampled := by
  unfold diskServiceStep
  dsimp only
  split
  case h_2 => split_ifs <;> simp
  case h_4 => split_ifs <;> simp
  all_goals simp

@[simp] theorem workloadUpdateScreen_views {height : Nat} :
    (workloadUpdateScreen s height).roster = s.roster ∧
    (workloadUpdateScreen s height).placement = s.placement ∧
    (workloadUpdateScreen s height).counters = s.counters ∧
    (workloadUpdateScreen s height).board = s.board ∧
    (workloadUpdateScreen s height).plan = s.plan ∧
    (workloadUpdateScreen s height).contents = s.contents ∧
    (workloadUpdateScreen s height).threads = s.threads := by
  unfold workloadUpdateScreen
  split_ifs <;> exact ⟨rfl, rfl, rfl, rfl, rfl, rfl, rfl⟩

end Workload
