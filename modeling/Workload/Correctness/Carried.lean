import Workload.Correctness.Loading
import Workload.Model.System

/-!
# `Correctness.Carried` — what a load and a running workload carry along

A component of the state is `Carried` when it does not depend on what the running workload writes all the
time: the fields of files, the fields of disks other than the delay, the file system and the database.
`FileCarried` and `DiskCarried` add independence of the arrays and chains the two object stages build. The
lemmas say that whole stages and calls keep such a component, however they end.

* **`DiskCarried.loadDisks`**, **`FileCarried.loadFiles`**, **`Carried.assignLoop`**, **`Carried.waitServices`**
  — the stages of a load.
* `workloadCmd_cases` — what a command can do.
* **`RunCarried.run`** — every other call.
-/

namespace Workload

/-- A component that the fields of files and disks, the objects freed, the file system and queries do not matter
    to. -/
structure Carried {α : Type*} (p : State → α) : Prop where
  heap : ∀ (s : State) (files : FilePtr → File) (freed : List FilePtr) (fs : Text → Text → Option Bytes)
    (nextFileIndex : Option (List Nat)) (ready error : Nat),
    p { s with
      files := files, freed := freed, fs := fs, nextFileIndex := nextFileIndex
      diskReadyCount := ready, diskErrorCount := error } = p s
  disk : ∀ (s : State) (d : DiskPtr) (h : Disk → Disk), (∀ x, (h x).fakeoffDelay = x.fakeoffDelay) →
    p (s.modifyDisk d h) = p s
  query : ∀ s stmt, p (querySet s stmt).2 = p s

/-- Nor do the chain and the arrays of the files. -/
structure FileCarried {α : Type*} (p : State → α) : Prop extends Carried p where
  arrays : ∀ (s : State) (cfg : Cfg) (fileHead : List FilePtr) (fileCount : Nat)
    (fileOrdered fileSorted fileEven : List FilePtr) (files : FilePtr → File) (nextFile : FilePtr),
    p { s with
      cfg := cfg, fileHead := fileHead, fileCount := fileCount, fileOrdered := fileOrdered
      fileSorted := fileSorted, fileEven := fileEven, files := files, nextFile := nextFile } = p s

/-- Nor do the chain and the array of the disks. -/
structure DiskCarried {α : Type*} (p : State → α) : Prop extends Carried p where
  chain : ∀ (s : State) (useFakeoff : Bool) (diskHead : List DiskPtr) (maxNameSize diskCount : Nat)
    (disk : List DiskPtr) (disks : DiskPtr → Disk) (nextDisk : DiskPtr),
    p { s with
      useFakeoff := useFakeoff, diskHead := diskHead, maxNameSize := maxNameSize
      diskCount := diskCount, disk := disk, disks := disks, nextDisk := nextDisk } = p s

/-- A component that no call of the running workload matters to: not the totals, not the sorted array, not the
    switches, clock readings, samples and ratios. -/
structure RunCarried {α : Type*} (p : State → α) : Prop extends Carried p where
  totals : ∀ s r w, p (State.setTotals s r w) = p s
  sorted : ∀ s i f, p (State.setSorted s i f) = p s
  outer : ∀ (s : State) (breakPtr reloadPtr pause relocate : Bool) (timeStamp timeStamp1sec leftRatio
    rightRatio readCountPrev writeCountPrev readCount1sec writeCount1sec : Nat),
    p { s with
      breakPtr := breakPtr, reloadPtr := reloadPtr, pause := pause, relocate := relocate
      cfg := { s.cfg with leftRatio := leftRatio, rightRatio := rightRatio }
      timeStamp := timeStamp, timeStamp1sec := timeStamp1sec
      readCountPrev := readCountPrev, writeCountPrev := writeCountPrev
      readCount1sec := readCount1sec, writeCount1sec := writeCount1sec } = p s

/-- A call made while the access threads run. -/
def WhileRunning : Op → Prop
  | .load _ => False
  | .unload _ => False
  | _ => True

namespace Carried

variable {α : Type*} {p : State → α} {s s' : State} {f : FilePtr} {d : DiskPtr}

/-- Two stages, one after the other. -/
theorem bind {x : Load} {next : State → Load} (hx : p x.state = p s)
    (hnext : ∀ s', p (next s').state = p s') : p (Load.state (x >>= next)) = p s := by
  cases x with
  | error e => exact hx
  | ok s' => exact (hnext s').trans hx

variable (h : Carried p)

include h

/-! ## Writes -/

theorem modifyFile (g : File → File) : p (s.modifyFile f g) = p s :=
  h.heap s _ s.freed s.fs s.nextFileIndex s.diskReadyCount s.diskErrorCount

theorem withFs (fs : Text → Text → Option Bytes) : p { s with fs := fs } = p s :=
  h.heap s s.files s.freed fs s.nextFileIndex s.diskReadyCount s.diskErrorCount

theorem setServiceCounts (ready error : Nat) : p (s.setServiceCounts ready error) = p s :=
  h.heap s s.files s.freed s.fs s.nextFileIndex ready error

theorem updateDb (file : Option FilePtr) (disk : Option DiskPtr) : p (updateDb s file disk) = p s :=
  updateDb_rel (R := fun s s' => p s' = p s) (fun _ => rfl) (fun h₁ h₂ => h₂.trans h₁) h.query
    (fun _ _ => h.modifyFile _) (fun _ _ => h.disk _ _ _ fun _ => by rfl) s file disk

theorem setIndexes (index : Nat) (files : List FilePtr) : p (setIndexes index files s) = p s := by
  induction files generalizing index s with
  | nil => rfl
  | cons f files ih => exact (ih (index + 1)).trans (h.modifyFile _)

/-! ## Services that are closed and opened -/

theorem closeService : p (closeService s d) = p s := by
  unfold Workload.closeService
  cases (s.disks d).service with
  | none => rfl
  | some pc =>
      refine (h.disk _ _ _ fun _ => by rfl).trans ?_
      cases (s.disks d).createdPath with
      | none => rfl
      | some entry => exact h.withFs _

theorem indexFiles (env : LoadEnv) : p (indexFiles env s) = p s :=
  h.heap s s.files s.freed s.fs _ s.diskReadyCount s.diskErrorCount

theorem startServices (env : LoadEnv) : p (startServices env s) = p s := by
  have hopen : ∀ s d, p (openService env s d) = p s := by
    intro s d
    unfold openService
    exact (h.disk _ _ _ fun _ => by rfl).trans h.closeService
  exact (foldl_keeps (p := p) hopen _ _).trans (h.setServiceCounts 0 0)

/-! ## Files that leave and join disks -/

theorem unlinkFile : p (unlinkFile s f d) = p s := by
  have hnext : p (bypassNext s f) = p s := by
    unfold bypassNext
    cases (s.files f).assignNext with
    | none => rfl
    | some n => exact h.modifyFile _
  have hprev : ∀ s, p (bypassPrev s f d) = p s := by
    intro s
    unfold bypassPrev
    cases (s.files f).assignPrev with
    | none => exact h.disk _ _ _ fun _ => by rfl
    | some n => exact h.modifyFile _
  unfold Workload.unlinkFile
  exact (h.modifyFile _).trans ((h.disk _ _ _ fun _ => by rfl).trans ((hprev _).trans hnext))

theorem workloadDeassignFile (io : DeassignIo) : p (workloadDeassignFile s f io).2 = p s := by
  unfold Workload.workloadDeassignFile
  cases (s.files f).assignDisk with
  | none => rfl
  | some d =>
      refine h.unlinkFile.trans ?_
      unfold deleteCreated
      dsimp only
      split_ifs
      · exact (h.modifyFile _).trans (h.withFs _)
      · exact h.modifyFile _
      · rfl

theorem workloadFreeFile (file : Option FilePtr) (io : DeassignIo) :
    p (workloadFreeFile s file io) = p s := by
  cases file with
  | none => rfl
  | some f => exact (h.heap _ _ _ _ _ _ _).trans (h.workloadDeassignFile io)

theorem linkFile : p (linkFile s f d) = p s := by
  have hback : ∀ s head, p (backLink s head f) = p s := by
    intro s head
    unfold backLink
    cases head with
    | none => rfl
    | some g => exact h.modifyFile _
  unfold Workload.linkFile
  exact (h.disk _ _ _ fun _ => by rfl).trans ((h.modifyFile _).trans ((h.disk _ _ _ fun _ => by rfl).trans
    ((hback _ _).trans (h.modifyFile _))))

theorem workloadMoveAssignFile (io : MoveIo) : p (workloadMoveAssignFile s f d io).2 = p s := by
  unfold Workload.workloadMoveAssignFile
  cases (s.files f).assignDisk with
  | none =>
      dsimp only
      exact h.modifyFile _
  | some home =>
      have hcopy : ∀ (s : State) dir name c c', p (Workload.workloadDeassignFile
          ((s.setPath dir name c).setPath dir name c') f io.deassign).2 = p s := fun s dir name c c' =>
        (h.workloadDeassignFile _).trans ((h.withFs _).trans (h.withFs _))
      dsimp only
      split_ifs
      · rfl
      · rfl
      · rfl
      · rfl
      · exact hcopy s _ _ _ _
      · dsimp only
        exact (h.modifyFile _).trans (hcopy s _ _ _ _)

theorem workloadAssignFileToDisk (file : Option FilePtr) (disk : Option DiskPtr) (io : MoveIo) :
    p (workloadAssignFileToDisk s file disk io).2 = p s := by
  have hsection : ∀ s f d old, p (assignedSection s f d old) = p s := by
    intro s f d old
    refine (h.updateDb _ _).trans ((h.disk _ _ _ fun _ => by rfl).trans ((h.modifyFile _).trans ?_))
    cases old with
    | none => rfl
    | some d => exact h.disk _ _ _ fun _ => by rfl
  unfold Workload.workloadAssignFileToDisk
  cases file with
  | none => rfl
  | some f =>
      cases disk with
      | none => rfl
      | some d =>
          have hmove := h.workloadMoveAssignFile (s := s) (f := f) (d := d) io
          dsimp only
          split_ifs
          · rfl
          · exact (hsection _ _ _ _).trans (h.linkFile.trans hmove)
          · exact hmove

theorem assignLoop (hfile : ∀ s id rand, p (assignFile s id rand).2 = p s) (env : LoadEnv) (n id : Nat) :
    p (assignLoop env n id s).state = p s := by
  induction n generalizing id s with
  | zero => rfl
  | succ n ih =>
      have hfile := hfile s id (env.rand id)
      unfold Workload.assignLoop
      split_ifs
      · rfl
      · generalize assignFile s id (env.rand id) = drawn at hfile ⊢
        obtain ⟨f, s₁⟩ := drawn
        refine Eq.trans ?_ hfile
        dsimp only
        split
        · rfl
        · split
          · rfl
          · rename_i d _
            have hassign := h.workloadAssignFileToDisk (s := s₁) (some f) (some d) (env.assignIo f)
            split_ifs
            · exact hassign
            · exact (ih _).trans hassign

/-! ## The services -/

theorem diskServiceStep (htotals : ∀ s r w, p (State.setTotals s r w) = p s) (io : ServiceIo) :
    p (diskServiceStep s d io) = p s := by
  have hpc : ∀ s pc, p (setPc s d pc) = p s := fun s pc =>
    h.disk _ _ _ fun _ => by rfl
  unfold Workload.diskServiceStep
  cases (s.disks d).service with
  | none => rfl
  | some pc =>
      cases pc with
      | start =>
          dsimp only
          split_ifs
          · exact (hpc _ _).trans (h.setServiceCounts _ _)
          · exact (hpc _ _).trans (h.disk _ _ _ fun _ => by rfl)
          · exact hpc _ _
      | walk file =>
          cases file with
          | none => exact hpc _ _
          | some f =>
              dsimp only
              split_ifs
              · exact (hpc _ _).trans (h.setServiceCounts _ _)
              · exact (hpc _ _).trans (h.setServiceCounts _ _)
              · exact (hpc _ _).trans (h.withFs _)
      | count f =>
          dsimp only
          refine (hpc _ _).trans ?_
          unfold serviceSection
          refine (h.updateDb _ _).trans ((htotals _ _ _).trans ?_)
          exact (h.disk _ _ _ fun _ => by rfl).trans (h.modifyFile _)
      | leave => exact (hpc _ _).trans (h.setServiceCounts _ _)
      | ready => rfl
      | failed => rfl

theorem waitServices (htotals : ∀ s r w, p (State.setTotals s r w) = p s) (events : List WaitEvent) :
    p (waitServices events s).state = p s := by
  induction events generalizing s with
  | nil => rfl
  | cons event events ih =>
      cases event with
      | service d io => exact ih.trans (h.diskServiceStep htotals io)
      | poll brk =>
          unfold Workload.waitServices
          split_ifs
          · rfl
          · rfl
          · rfl
          · exact ih

end Carried

namespace DiskCarried

variable {α : Type*} {p : State → α} {s : State} (h : DiskCarried p)

include h

/-! ## The disk stage -/

theorem workloadFreeDisk : p (workloadFreeDisk s) = p s :=
  (h.chain _ _ _ _ _ _ _ _).trans (foldl_keeps (p := p) (fun _ _ => h.closeService) _ _)

theorem workloadFreeDiskArray : p (workloadFreeDiskArray s) = p s := by
  unfold Workload.workloadFreeDiskArray
  split_ifs
  · rfl
  · exact h.chain _ _ _ _ _ _ _ _

theorem addDisk (env : LoadEnv) (k id : Nat) (node : Node) : p (addDisk env k id node s).1 = p s := by
  have hflag : p (if parseFakeoff node = -1 then s else { s with useFakeoff := true }) = p s := by
    split_ifs
    · rfl
    · exact h.chain _ _ _ _ _ _ _ _
  unfold Workload.addDisk
  dsimp only
  generalize (if parseFakeoff node = -1 then s else { s with useFakeoff := true } : State) = s₁
    at hflag ⊢
  split_ifs
  · exact hflag
  · exact hflag
  · unfold workloadNewDisk
    cases env.newDisk k with
    | false => exact hflag
    | true =>
        exact (h.chain s₁ s₁.useFakeoff _ s₁.maxNameSize s₁.diskCount s₁.disk _ _).trans hflag

theorem diskLoop (env : LoadEnv) (nodes : List Node) (k id : Nat) :
    p (diskLoop env nodes k id s).state = p s := by
  induction nodes generalizing k id s with
  | nil => rfl
  | cons node nodes ih =>
      unfold Workload.diskLoop
      split_ifs
      · rfl
      · exact (ih _ _).trans (h.addDisk env k id node)

theorem loadDisks (env : LoadEnv) (doc : Document) : p (loadDisks env doc s).state = p s := by
  refine Carried.bind ((h.diskLoop env _ 0 1).trans (h.workloadFreeDisk.trans h.workloadFreeDiskArray)) ?_
  intro s'
  have harray : p (workloadUpdateDiskArray s' env.diskArray).2 = p s' := by
    unfold workloadUpdateDiskArray
    dsimp only
    split_ifs
    · exact (h.chain _ _ _ _ _ _ _ _).trans h.workloadFreeDiskArray
    · exact (h.chain _ _ _ _ _ _ _ _).trans h.workloadFreeDiskArray
    · exact (h.chain _ _ _ _ _ _ _ _).trans h.workloadFreeDiskArray
  dsimp only
  split_ifs
  · exact harray
  · exact harray

end DiskCarried

namespace FileCarried

variable {α : Type*} {p : State → α} {s : State} (h : FileCarried p)

include h

/-! ## The file stage -/

theorem workloadFreeFileArray : p (workloadFreeFileArray s) = p s := by
  unfold Workload.workloadFreeFileArray
  split_ifs
  · rfl
  · exact h.arrays _ _ _ _ _ _ _ _ _

theorem fileLoop (env : LoadEnv) (n id : Nat) : p (fileLoop env n id s).state = p s := by
  induction n generalizing id s with
  | zero => rfl
  | succ n ih =>
      unfold Workload.fileLoop
      by_cases hbrk : env.brkFile id
      · rw [if_pos hbrk]
        rfl
      · rw [if_neg hbrk]
        unfold workloadNewFile
        cases env.newFile id with
        | false => rfl
        | true =>
            refine (ih _).trans ?_
            exact h.arrays s s.cfg _ s.fileCount s.fileOrdered s.fileSorted s.fileEven _ _

theorem loadFiles (env : LoadEnv) : p (loadFiles env s).state = p s := by
  have hcfg : ∀ (s : State) cfg, p { s with cfg := cfg } = p s := fun s cfg =>
    h.arrays s cfg s.fileHead s.fileCount s.fileOrdered s.fileSorted s.fileEven s.files s.nextFile
  have hhead : ∀ s : State, p { s with fileHead := [] } = p s := fun s =>
    h.arrays s s.cfg [] s.fileCount s.fileOrdered s.fileSorted s.fileEven s.files s.nextFile
  refine Carried.bind ((h.fileLoop env _ 1).trans ((hcfg _ _).trans ((hhead _).trans
    ((h.workloadFreeFile _ _).trans h.workloadFreeFileArray)))) ?_
  intro s'
  have harray : p (workloadUpdateFileArray s' env.fileArray).2 = p s' := by
    unfold workloadUpdateFileArray
    split_ifs
    · exact h.workloadFreeFileArray
    · exact h.workloadFreeFileArray
    · exact (h.setIndexes _ _).trans (h.arrays _ _ _ _ _ _ _ _ _)
  dsimp only
  split_ifs
  · exact harray
  · exact harray

theorem assignLoop (env : LoadEnv) (n id : Nat) : p (assignLoop env n id s).state = p s := by
  refine h.toCarried.assignLoop (fun s id rand => ?_) env n id
  unfold assignFile
  dsimp only
  split_ifs
  · exact h.arrays s s.cfg s.fileHead s.fileCount s.fileOrdered s.fileSorted _ s.files s.nextFile
  · rfl

end FileCarried

/-! ## Commands -/

/-- **The cases of a command**, by the state it leaves. -/
theorem workloadCmd_cases (s : State) (code : Text) (ios : FilePtr → MoveIo) {motive : State → Prop}
    (ignored : motive s)
    (stopped : ∀ reload, motive { s with breakPtr := true, reloadPtr := reload })
    (paused : ∀ pause, motive { s with pause := pause })
    (switched : ∀ b, motive (workloadSetMainRelocate s b))
    (relocated : motive (workloadFileRelocate s ios))
    (switchRelocated : ∀ b, motive (workloadFileRelocate (workloadSetMainRelocate s b) ios))
    (reset : code = ['!'] → motive (workloadResetFileAccessCount s))
    (left : ∀ argument, 0 < atoi argument →
      motive { s with cfg := { s.cfg with leftRatio := toUnsigned (atoi argument) } })
    (right : ∀ argument, 0 < atoi argument →
      motive { s with cfg := { s.cfg with rightRatio := toUnsigned (atoi argument) } }) :
    motive (workloadCmd s code ios) := by
  match code with
  | [] => exact ignored
  | [c] =>
      unfold workloadCmd
      apply iteInduction (fun _ => stopped s.reloadPtr)
      intro _
      apply iteInduction (fun _ => stopped true)
      intro _
      apply iteInduction (fun _ => iteInduction (fun _ => switchRelocated _) fun _ => switched _)
      intro _
      apply iteInduction (fun _ => relocated)
      intro _
      apply iteInduction (fun _ => paused _)
      intro _
      apply iteInduction (fun _ => switchRelocated true)
      intro _
      apply iteInduction (fun _ => switched false)
      intro _
      apply iteInduction (fun _ => paused true)
      intro _
      apply iteInduction (fun _ => paused false)
      intro _
      exact iteInduction (fun hc => reset (by rw [hc])) fun _ => ignored
  | c :: blank :: argument =>
      unfold workloadCmd
      refine iteInduction (fun _ => ?_) fun _ => ignored
      apply iteInduction (fun h => left argument h.2)
      intro _
      exact iteInduction (fun h => right argument h.2) fun _ => ignored

/-! ## The running workload -/

namespace RunCarried

variable {α : Type*} {p : State → α} {s : State} {f : FilePtr} {d : DiskPtr} (h : RunCarried p)

include h

/-! ## Calls of the running workload -/

theorem setRelocate (b : Bool) : p (s.setRelocate b) = p s :=
  h.outer s s.breakPtr s.reloadPtr s.pause b s.timeStamp s.timeStamp1sec s.cfg.leftRatio
    s.cfg.rightRatio s.readCountPrev s.writeCountPrev s.readCount1sec s.writeCount1sec

theorem withPause (b : Bool) : p { s with pause := b } = p s :=
  h.outer s s.breakPtr s.reloadPtr b s.relocate s.timeStamp s.timeStamp1sec s.cfg.leftRatio
    s.cfg.rightRatio s.readCountPrev s.writeCountPrev s.readCount1sec s.writeCount1sec

theorem relocateSection : p (relocateSection s) = p s := by
  have hdisk : ∀ s d, p (restartDisk s d) = p s := by
    intro s d
    unfold restartDisk
    exact (h.updateDb _ _).trans (h.disk _ _ _ fun _ => by rfl)
  exact foldl_keeps (p := p) hdisk _ _

theorem workloadSetMainRelocate (b : Bool) : p (workloadSetMainRelocate s b) = p s :=
  h.relocateSection.trans (h.setRelocate b)

theorem workloadResetFileAccessCount : p (workloadResetFileAccessCount s) = p s := by
  have hfile : ∀ s f, p (resetFile s f) = p s := by
    intro s f
    unfold resetFile
    exact (h.updateDb _ _).trans (h.modifyFile _)
  have hdisk : ∀ s d, p (resetDisk s d) = p s := by
    intro s d
    unfold resetDisk
    exact (h.updateDb _ _).trans (h.disk _ _ _ fun _ => by rfl)
  unfold Workload.workloadResetFileAccessCount
  dsimp only
  exact (h.totals _ _ _).trans ((foldl_keeps (p := p) hdisk _ _).trans (foldl_keeps (p := p) hfile _ _))

theorem workloadFileRelocate (ios : FilePtr → MoveIo) : p (workloadFileRelocate s ios) = p s := by
  have hfile : ∀ s f, p (relocateFile s f (ios f)) = p s := by
    intro s f
    unfold relocateFile
    cases (s.files f).reassignDisk with
    | none => rfl
    | some d => exact (h.modifyFile _).trans (h.workloadAssignFileToDisk _ _ _)
  exact foldl_keeps (p := p) hfile _ _

theorem accessSection (r w : Nat) : p (accessSection s f r w) = p s := by
  have hcount : p (countAccess s f r w) = p s := by
    unfold countAccess
    dsimp only
    refine (h.totals _ _ _).trans ?_
    cases ((s.modifyFile f _).files f).assignDisk with
    | none => exact h.modifyFile _
    | some d => exact (h.disk _ _ _ fun _ => by rfl).trans (h.modifyFile _)
  have hsort : ∀ i s count, p (sortIndex f count i s) = p s := by
    intro i
    induction i with
    | zero => exact fun _ _ => rfl
    | succ i ih =>
        intro s count
        unfold sortIndex
        dsimp only
        split_ifs
        · rfl
        · exact (ih _ _).trans ((h.modifyFile _).trans ((h.sorted _ _ _).trans
            ((h.modifyFile _).trans (h.sorted _ _ _))))
  have hwindow : ∀ d n i s, p (planWindow d n i s) = p s := by
    intro d n
    induction n with
    | zero => exact fun _ _ => rfl
    | succ n ih => exact fun i s => (ih _ _).trans (h.modifyFile _)
  have hloop : ∀ next n i j s, p (planLoop next n i j s) = p s := by
    intro next n
    induction n with
    | zero => exact fun _ _ _ => rfl
    | succ n ih => exact fun i j s => (ih _ _ _).trans (hwindow _ _ _ _)
  have hplan : ∀ s, p (planReassign s) = p s := by
    intro s
    unfold planReassign
    cases s.nextFileIndex with
    | none => rfl
    | some next => exact hloop _ _ _ _ _
  unfold Workload.accessSection
  exact (h.updateDb _ _).trans ((hplan _).trans ((hsort _ _ _).trans hcount))

theorem workloadFileAccess (file : Option FilePtr) (io : AccessIo) :
    p (workloadFileAccess s file io).2 = p s := by
  have htransfer : ∀ f d, p (accessTransfer s f d io).2 = p s := by
    intro f d
    unfold accessTransfer
    dsimp only
    by_cases hoff : fakeOff s d
    · rw [if_pos hoff]
    · rw [if_neg hoff]
      cases s.fs (s.dir d) (s.files f).filename with
      | none => rfl
      | some contents =>
          dsimp only
          split_ifs
          · rfl
          · rfl
          · rfl
          · exact h.withFs _
          · exact h.withFs _
  unfold Workload.workloadFileAccess
  cases file with
  | none => rfl
  | some f =>
      dsimp only
      cases (s.files f).assignDisk with
      | none => rfl
      | some d =>
          dsimp only
          split_ifs
          · rfl
          · exact (h.accessSection _ _).trans (htransfer f d)
          · exact htransfer f d

theorem workloadCmd (code : Text) (ios : FilePtr → MoveIo) : p (workloadCmd s code ios) = p s := by
  have hflags : ∀ brk reload, p { s with breakPtr := brk, reloadPtr := reload } = p s := fun brk reload =>
    h.outer s brk reload s.pause s.relocate s.timeStamp s.timeStamp1sec s.cfg.leftRatio
      s.cfg.rightRatio s.readCountPrev s.writeCountPrev s.readCount1sec s.writeCount1sec
  have hratios : ∀ left right,
      p { s with cfg := { s.cfg with leftRatio := left, rightRatio := right } } = p s := fun left right =>
    h.outer s s.breakPtr s.reloadPtr s.pause s.relocate s.timeStamp s.timeStamp1sec left right
      s.readCountPrev s.writeCountPrev s.readCount1sec s.writeCount1sec
  apply workloadCmd_cases (motive := fun s' => p s' = p s)
  case ignored => rfl
  case stopped => exact hflags true
  case paused => exact h.withPause
  case switched => exact h.workloadSetMainRelocate
  case relocated => exact h.workloadFileRelocate ios
  case switchRelocated =>
    intro b
    exact (h.workloadFileRelocate ios).trans (h.workloadSetMainRelocate b)
  case reset => exact fun _ => h.workloadResetFileAccessCount
  case left => exact fun _ _ => hratios _ s.cfg.rightRatio
  case right => exact fun _ _ => hratios s.cfg.leftRatio _

theorem workloadUpdateScreen (height : Nat) : p (workloadUpdateScreen s height) = p s := by
  unfold Workload.workloadUpdateScreen
  split_ifs
  · rfl
  · rfl
  · rfl
  · exact h.outer s s.breakPtr s.reloadPtr s.pause s.relocate s.timeStamp s.timeStamp s.cfg.leftRatio
      s.cfg.rightRatio _ _ _ _

/-- **Every call of the running workload keeps the component.** -/
theorem run {op : Op} (hop : WhileRunning op) : p (op.run s) = p s := by
  cases op with
  | load env => exact absurd hop id
  | unload io => exact absurd hop id
  | index env => exact h.indexFiles env
  | start env => exact h.startServices env
  | service d io => exact h.diskServiceStep h.totals io
  | assign file disk io => exact h.workloadAssignFileToDisk file disk io
  | access file io => exact h.workloadFileAccess file io
  | reset => exact h.workloadResetFileAccessCount
  | setRelocate value => exact h.workloadSetMainRelocate value
  | toggleRelocate => exact h.workloadSetMainRelocate _
  | relocate ios => exact h.workloadFileRelocate ios
  | command code ios => exact h.workloadCmd code ios
  | tick timeStamp =>
      exact h.outer s s.breakPtr s.reloadPtr s.pause s.relocate timeStamp s.timeStamp1sec
        s.cfg.leftRatio s.cfg.rightRatio s.readCountPrev s.writeCountPrev s.readCount1sec
        s.writeCount1sec
  | screen height => exact h.workloadUpdateScreen height

end RunCarried

end Workload
