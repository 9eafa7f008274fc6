import Workload.Correctness.Verbosity

/-!
# `Correctness.Reloading` — a reload against a fresh start

`workload_unload_config` and the stages of a load between them have to bring every field back to where
`workload_init` puts it. Two loads in the same environment are compared: one behind an unload, one on a fresh
`workload_t`. `Tidy` collects what makes the two guards of the unload (an array that is NULL) harmless.

* **`reload_fresh`** — the two loads agree, exactly when nothing is left in the fields no function resets: the
  sample of the screen, the pause switch and the fakeoff flag.
-/

namespace Workload

open Trace

/-! ## A fresh workload -/

/-- A freshly initialised workload, over the memory, the file system and the flags of main around `s`. -/
def State.renewed (timeStamp : Nat) (options : List (Text × Text)) (s : State) : State :=
  { workloadInit timeStamp s.directory s.fs options with
    breakPtr := s.breakPtr
    reloadPtr := s.reloadPtr
    files := s.files
    nextFile := s.nextFile
    freed := s.freed
    disks := s.disks
    nextDisk := s.nextDisk }

/-- Two loaded workloads, their time stamps and relocate switches left out. -/
structure SameLoaded (s t : State) : Prop where
  cfg : s.cfg = t.cfg
  diskHead : s.diskHead = t.diskHead
  disk : s.disk = t.disk
  diskCount : s.diskCount = t.diskCount
  maxNameSize : s.maxNameSize = t.maxNameSize
  disks : ∀ d, { s.disks d with timeStamp := 0, fakeoffTimeStamp := 0 } =
    { t.disks d with timeStamp := 0, fakeoffTimeStamp := 0 }
  fileHead : s.fileHead = t.fileHead
  fileCount : s.fileCount = t.fileCount
  fileOrdered : s.fileOrdered = t.fileOrdered
  fileSorted : s.fileSorted = t.fileSorted
  fileEven : s.fileEven = t.fileEven
  nextFileIndex : s.nextFileIndex = t.nextFileIndex
  files : ∀ f, { s.files f with timeStamp := 0 } = { t.files f with timeStamp := 0 }
  useFakeoff : s.useFakeoff = t.useFakeoff
  pause : s.pause = t.pause
  readCount : s.readCount = t.readCount
  writeCount : s.writeCount = t.writeCount
  sampled : s.sampled = t.sampled

/-- Some disk of the chain has a delay. -/
def HasDelay (s : State) : Prop := ∃ d ∈ s.diskHead, (s.disks d).fakeoffDelay ≠ -1

theorem carried_opt : RunCarried State.opt where
  heap := by
    intros
    rfl
  disk := by
    intros
    rfl
  query s stmt := by
    rw [querySet_snd]
    rfl
  totals _ _ _ := rfl
  sorted _ _ _ := rfl
  outer := by
    intros
    rfl

/-- What an option does to the options does not depend on the rest of the state. -/
theorem parseOptionCase_opt {s s' : State} (h : s.opt = s'.opt) (option : Text × Text) :
    (parseOptionCase s option).opt = (parseOptionCase s' option).opt := by
  have hite : ∀ {c : Prop} [Decidable c] {x y x' y' : State}, x.opt = x'.opt → y.opt = y'.opt →
      (if c then x else y).opt = (if c then x' else y').opt := by
    intro c _ x y x' y' hx hy
    split_ifs
    · exact hx
    · exact hy
  have hrelocate : (workloadSetMainRelocate s true).opt = (workloadSetMainRelocate s' true).opt :=
    (carried_opt.workloadSetMainRelocate true).trans
      (h.trans (carried_opt.workloadSetMainRelocate true).symm)
  have hopt : ∀ g : Opt → Opt, ({ s with opt := g s.opt } : State).opt =
      ({ s' with opt := g s'.opt } : State).opt := fun g => congrArg g h
  obtain ⟨name, optarg⟩ := option
  unfold parseOptionCase
  dsimp only
  refine hite (hopt fun opt => { opt with verbose := true }) ?_
  refine hite (hopt fun opt => { opt with daemonize := true }) ?_
  refine hite (hopt fun opt => { opt with configFile := some optarg }) ?_
  refine hite (hopt fun opt => { opt with dumpDisk := true }) ?_
  refine hite (hopt fun opt => { opt with dumpFile := true }) ?_
  refine hite (hopt fun opt => { opt with leftRatio := toUnsigned (atoi optarg) }) ?_
  refine hite (hopt fun opt => { opt with rightRatio := toUnsigned (atoi optarg) }) ?_
  refine hite (hopt fun opt => { opt with duration := toSize (atoi optarg) }) ?_
  refine hite (hopt fun opt => { opt with accessInterval := toSize (atoi optarg) }) ?_
  refine hite (hopt fun opt => { opt with filesAssignMethod := some optarg }) ?_
  refine hite (hopt fun opt => { opt with filePrefix := some optarg }) ?_
  refine hite (hopt fun opt => { opt with fileSuffix := some optarg }) ?_
  refine hite (hopt fun opt => { opt with filecount := toSize (atoi optarg) }) ?_
  refine hite (hopt fun opt => { opt with filesize := atoi optarg }) ?_
  refine hite (hopt fun opt => { opt with pause := 1 }) ?_
  refine hite hrelocate ?_
  refine hite (hopt fun opt => { opt with threads := atoi optarg }) ?_
  exact h

/-- The options come out the same at every time and over every file system. -/
theorem init_opt (t t' : Nat) (directory directory' : Text → Text) (fs fs' : Text → Text → Option Bytes)
    (options : List (Text × Text)) :
    (workloadInit t directory fs options).opt = (workloadInit t' directory' fs' options).opt := by
  have hfold : ∀ {s s' : State}, s.opt = s'.opt →
      (options.foldl parseOptionCase s).opt = (options.foldl parseOptionCase s').opt := by
    induction options with
    | nil => exact fun h => h
    | cons option options ih => exact fun h => ih (parseOptionCase_opt h option)
  exact hfold rfl

/-- Options show in `m_opt` and in the relocate switch only. -/
theorem init_form (t : Nat) (directory : Text → Text) (fs : Text → Text → Option Bytes)
    (options : List (Text × Text)) :
    ∃ relocate, workloadInit t directory fs options =
      { workloadInit t directory fs [] with
        opt := (workloadInit t directory fs options).opt
        relocate := relocate } := by
  suffices h : ∃ opt relocate, workloadInit t directory fs options =
      { workloadInit t directory fs [] with opt := opt, relocate := relocate } by
    obtain ⟨opt, relocate, h⟩ := h
    rw [h]
    exact ⟨relocate, rfl⟩
  refine List.foldlRecOn options (motive := fun s => ∃ opt relocate, s =
    { workloadInit t directory fs [] with opt := opt, relocate := relocate }) _ ⟨workloadInitOption, false, rfl⟩ ?_
  rintro s ⟨opt, relocate, rfl⟩ option -
  obtain ⟨opt', h⟩ | h := parseOptionCase_cases _ option
  · exact ⟨opt', relocate, h⟩
  · exact ⟨opt, true, h⟩

/-! ## What the unload relies on -/

def State.diskSizes (s : State) : List DiskPtr × Nat × Nat := (s.disk, s.diskCount, s.maxNameSize)

def State.fileSizes (s : State) : List FilePtr × Nat × Nat × Nat :=
  (s.fileOrdered, s.fileSorted.length, s.fileEven.length, s.fileCount)

/-- An array that is NULL has no size, and a run that only reports the database starts no threads. -/
structure Tidy (o : Opt) (s : State) : Prop where
  opt : s.opt = o
  disk : s.disk = [] → s.diskSizes = ([], 0, 0)
  file : s.fileOrdered = [] → s.fileSizes = ([], 0, 0, 0)
  threads : o.dumpDisk = true ∨ o.dumpFile = true → s.cfg.accessThreads = 0

theorem runCarried_diskSizes : RunCarried State.diskSizes where
  heap := by
    intros
    rfl
  disk := by
    intros
    rfl
  query s stmt := by
    rw [querySet_snd]
    rfl
  totals _ _ _ := rfl
  sorted _ _ _ := rfl
  outer := by
    intros
    rfl

theorem runCarried_fileSizes : RunCarried State.fileSizes where
  heap := by
    intros
    rfl
  disk := by
    intros
    rfl
  query s stmt := by
    rw [querySet_snd]
    rfl
  totals _ _ _ := rfl
  sorted s i f := by
    unfold State.setSorted State.fileSizes
    rw [List.length_set]
  outer := by
    intros
    rfl

theorem runCarried_threads : RunCarried fun s => s.cfg.accessThreads where
  heap := by
    intros
    rfl
  disk := by
    intros
    rfl
  query s stmt := by
    rw [querySet_snd]
    rfl
  totals _ _ _ := rfl
  sorted _ _ _ := rfl
  outer := by
    intros
    rfl

namespace Tidy

variable {o : Opt} {s s' : State}

/-- States with the same sizes, options and threads are tidy alike. -/
theorem of_sizes (h : Tidy o s) (hopt : s'.opt = s.opt) (hdisk : s'.diskSizes = s.diskSizes)
    (hfile : s'.fileSizes = s.fileSizes) (hthreads : s'.cfg.accessThreads = s.cfg.accessThreads) :
    Tidy o s' := by
  have harray : s'.disk = s.disk := congrArg (·.1) hdisk
  have hordered : s'.fileOrdered = s.fileOrdered := congrArg (·.1) hfile
  refine ⟨hopt.trans h.opt, fun hnil => ?_, fun hnil => ?_, fun hdump => hthreads.trans (h.threads hdump)⟩
  · exact hdisk.trans (h.disk (harray ▸ hnil))
  · exact hfile.trans (h.file (hordered ▸ hnil))

theorem run (h : Tidy o s) {op : Op} (hop : WhileRunning op) : Tidy o (op.run s) :=
  h.of_sizes (carried_opt.run hop) (runCarried_diskSizes.run hop) (runCarried_fileSizes.run hop)
    (runCarried_threads.run hop)

end Tidy

/-! ## A load keeps it -/

/-- A property of where a stage ends, from what the stage in front of it guarantees. -/
theorem load_bind_state {P Q : State → Prop} {x : Load} {next : State → Load} (hx : P x.state)
    (hend : ∀ s, P s → Q s) (hnext : ∀ s, P s → Q (next s).state) : Q (Load.state (x >>= next)) := by
  cases x with
  | error e => exact hend _ hx
  | ok s => exact hnext s hx

theorem diskCarried_fileSizes : DiskCarried State.fileSizes where
  toCarried := runCarried_fileSizes.toCarried
  chain := by
    intros
    rfl

theorem fileCarried_diskSizes : FileCarried State.diskSizes where
  toCarried := runCarried_diskSizes.toCarried
  arrays := by
    intros
    rfl

theorem fileCarried_opt : FileCarried State.opt where
  toCarried := carried_opt.toCarried
  arrays := by
    intros
    rfl

theorem diskCarried_opt : DiskCarried State.opt where
  toCarried := carried_opt.toCarried
  chain := by
    intros
    rfl

theorem diskLoop_sizes (env : LoadEnv) (nodes : List Node) (k id : Nat) (s : State) :
    (diskLoop env nodes k id s).state.diskSizes = s.diskSizes := by
  induction nodes generalizing k id s with
  | nil => rfl
  | cons node nodes ih =>
      have hadd : (addDisk env k id node s).1.diskSizes = s.diskSizes := by
        obtain ⟨u, h⟩ | ⟨u, disk, h, -⟩ := addDisk_cases env k id node s
        · rw [h]
          rfl
        · rw [h]
          rfl
      unfold diskLoop
      split_ifs
      · rfl
      · exact (ih _ _ _).trans hadd

theorem fileLoop_sizes (env : LoadEnv) (n id : Nat) (s : State) :
    (fileLoop env n id s).state.fileSizes = s.fileSizes := by
  induction n generalizing id s with
  | zero => rfl
  | succ n ih =>
      unfold fileLoop
      split_ifs
      · rfl
      · unfold workloadNewFile
        cases env.newFile id with
        | false => rfl
        | true => exact ih _ _

/-- The disk array and the disks are freed. -/
theorem freeDisks_sizes {s : State} (h : s.disk = [] → s.diskSizes = ([], 0, 0)) :
    (workloadFreeDisk (workloadFreeDiskArray s)).diskSizes = ([], 0, 0) := by
  have harray : (workloadFreeDiskArray s).diskSizes = ([], 0, 0) := by
    unfold workloadFreeDiskArray
    split_ifs with hnil
    · exact h hnil
    · rfl
  refine Eq.trans ?_ harray
  exact foldl_keeps (p := State.diskSizes) (fun _ _ => runCarried_diskSizes.closeService) _ _

/-- The disk array is freed and rebuilt. -/
theorem Tidy.diskArray {o : Opt} {s : State} (h : Tidy o s) (env : LoadEnv) (doc : Document) :
    (loadDisks env doc s).state.disk = [] → (loadDisks env doc s).state.diskSizes = ([], 0, 0) := by
  have hfree := freeDisks_sizes h.disk
  unfold Workload.loadDisks
  refine load_bind_state (P := fun s => s.diskSizes = ([], 0, 0))
    (Q := fun s => s.disk = [] → s.diskSizes = ([], 0, 0))
    ((diskLoop_sizes env _ 0 1 _).trans hfree) (fun s₁ hs₁ _ => hs₁) fun s₁ hsizes => ?_
  · have hdisk : s₁.disk = [] := congrArg (·.1) hsizes
    have hcount : s₁.diskCount = 0 := congrArg (·.2.1) hsizes
    have hname : s₁.maxNameSize = 0 := congrArg (·.2.2) hsizes
    have harray : (workloadUpdateDiskArray s₁ env.diskArray).2.disk = [] →
        (workloadUpdateDiskArray s₁ env.diskArray).2.diskSizes = ([], 0, 0) := by
      unfold workloadUpdateDiskArray
      rw [show workloadFreeDiskArray s₁ = s₁ from if_pos hdisk]
      dsimp only
      rw [hcount, Nat.zero_add]
      split_ifs with hlen hok
      · intro _
        unfold State.diskSizes
        dsimp only
        rw [hdisk, hname, hlen]
      · intro _
        unfold State.diskSizes
        dsimp only
        rw [hdisk, hname]
      · intro hnil
        rw [show s₁.diskHead = [] from hnil] at hlen
        exact absurd rfl hlen
    dsimp only
    split_ifs
    · exact harray
    · exact harray

/-- The file arrays are freed and rebuilt. -/
theorem Tidy.freeFileArray {o : Opt} {s : State} (h : Tidy o s) :
    (workloadFreeFileArray s).fileSizes = ([], 0, 0, 0) := by
  unfold workloadFreeFileArray
  split_ifs with hnil
  · exact h.file hnil
  · rfl

theorem Tidy.fileArray {o : Opt} {s : State} (h : Tidy o s) (env : LoadEnv) :
    (loadFiles env s).state.fileOrdered = [] → (loadFiles env s).state.fileSizes = ([], 0, 0, 0) := by
  have hfree : ∀ file io, (workloadFreeFile (workloadFreeFileArray s) file io).fileSizes = ([], 0, 0, 0) :=
    fun file io => (runCarried_fileSizes.workloadFreeFile file io).trans h.freeFileArray
  unfold Workload.loadFiles
  refine load_bind_state (P := fun s => s.fileSizes = ([], 0, 0, 0))
    (Q := fun s => s.fileOrdered = [] → s.fileSizes = ([], 0, 0, 0))
    ((fileLoop_sizes env _ 1 _).trans (hfree _ _)) (fun s₁ hs₁ _ => hs₁) fun s₁ hsizes => ?_
  · have hordered : s₁.fileOrdered = [] := congrArg (·.1) hsizes
    have harray : (workloadUpdateFileArray s₁ env.fileArray).2.fileOrdered = [] →
        (workloadUpdateFileArray s₁ env.fileArray).2.fileSizes = ([], 0, 0, 0) := by
      unfold workloadUpdateFileArray
      rw [show workloadFreeFileArray s₁ = s₁ from if_pos hordered]
      split_ifs with hhead hok
      · exact fun _ => hsizes
      · exact fun _ => hsizes
      · intro hnil
        have hset : ∀ s₂ : State, (setIndexes 0 s₁.fileHead s₂).fileOrdered = s₂.fileOrdered := fun s₂ =>
          congrArg (·.1) (runCarried_fileSizes.setIndexes (s := s₂) 0 s₁.fileHead)
        exact absurd ((hset _).symm.trans hnil) hhead
    dsimp only
    split_ifs
    · exact harray
    · exact harray

/-- The stages of a load that does not just report the database. -/
theorem Tidy.loadStages {o : Opt} {s : State} (h : Tidy o s) (hdump : ¬(o.dumpDisk = true ∨ o.dumpFile = true))
    (env : LoadEnv) (doc : Document) (node : Node) :
    Tidy o (Load.state (resetMeta s >>= fun s => loadDisks env doc (parseOperation doc node s) >>= fun s =>
      loadFiles env s >>= fun s => assignLoop env s.fileCount 1 s >>= fun s =>
        .ok (startServices env (indexFiles env s)))) := by
  have hreset : Tidy o (resetMeta s).state := by
    obtain ⟨db, hdb⟩ : ∃ db, (resetMeta s).state = s.setDb db := by
      unfold resetMeta
      cases hs : s.db with
      | none => exact ⟨s.db, rfl⟩
      | some db =>
          have hsnd : ∃ db, (workloadResetDb s).2 = s.setDb db := by
            unfold workloadResetDb
            rw [hs]
            obtain ⟨db, hdb, -⟩ := querySets_snd [.dropFile, .dropDisk, .createDisk, .createFile] s
            exact ⟨db, hdb⟩
          obtain ⟨db, hdb⟩ := hsnd
          dsimp only
          rw [hdb]
          split_ifs
          · exact ⟨db, rfl⟩
          · exact ⟨none, rfl⟩
          · exact ⟨db, rfl⟩
    rw [hdb]
    exact h.of_sizes rfl rfl rfl rfl
  refine load_bind_state hreset (fun _ h => h) fun s₁ h₁ => ?_
  have hoperation : Tidy o (parseOperation doc node s₁) :=
    ⟨h₁.opt, h₁.disk, h₁.file, fun hd => absurd hd hdump⟩
  have hdisks : Tidy o (Workload.loadDisks env doc (parseOperation doc node s₁)).state := by
    have hfile := diskCarried_fileSizes.loadDisks (s := parseOperation doc node s₁) env doc
    have hordered := congrArg (·.1) hfile
    exact ⟨(diskCarried_opt.loadDisks env doc).trans hoperation.opt, hoperation.diskArray env doc,
      fun hnil => hfile.trans (hoperation.file (hordered.symm.trans hnil)), fun hd => absurd hd hdump⟩
  refine load_bind_state hdisks (fun _ h => h) fun s₂ h₂ => ?_
  have hfiles : Tidy o (Workload.loadFiles env s₂).state := by
    have hdisk := fileCarried_diskSizes.loadFiles (s := s₂) env
    have harray := congrArg (·.1) hdisk
    exact ⟨(fileCarried_opt.loadFiles env).trans h₂.opt,
      fun hnil => hdisk.trans (h₂.disk (harray.symm.trans hnil)), h₂.fileArray env, fun hd => absurd hd hdump⟩
  refine load_bind_state hfiles (fun _ h => h) fun s₃ h₃ => ?_
  have hassigned : Tidy o (assignLoop env s₃.fileCount 1 s₃).state := by
    have hdeal : ∀ s id rand, (assignFile s id rand).2.fileSizes = s.fileSizes := by
      intro s id rand
      unfold assignFile
      dsimp only
      split_ifs
      · unfold State.fileSizes
        dsimp only
        rw [List.length_set, List.length_set]
      · rfl
    have hfile := runCarried_fileSizes.toCarried.assignLoop hdeal env s₃.fileCount 1 (s := s₃)
    have hdisk := fileCarried_diskSizes.assignLoop env s₃.fileCount 1 (s := s₃)
    have hordered := congrArg (·.1) hfile
    have harray := congrArg (·.1) hdisk
    exact ⟨(fileCarried_opt.assignLoop env _ 1).trans h₃.opt,
      fun hnil => hdisk.trans (h₃.disk (harray.symm.trans hnil)),
      fun hnil => hfile.trans (h₃.file (hordered.symm.trans hnil)), fun hd => absurd hd hdump⟩
  refine load_bind_state hassigned (fun _ h => h) fun s₄ h₄ => ?_
  have hindex : Tidy o (indexFiles env s₄) := h₄.of_sizes rfl rfl rfl rfl
  exact hindex.of_sizes (carried_opt.startServices env) (runCarried_diskSizes.startServices env)
    (runCarried_fileSizes.startServices env) (runCarried_threads.startServices env)

theorem Tidy.load {o : Opt} {s : State} (h : Tidy o s) (env : LoadEnv) : Tidy o (startLoad env s) := by
  unfold startLoad
  cases s.xml with
  | some doc => exact h
  | none =>
      dsimp only
      split
      · exact h.of_sizes rfl rfl rfl rfl
      · rename_i file doc _
        generalize hs₁ : ({ s with xml := some doc, cfg := { s.cfg with configFile := some file } } : State)
          = s₁
        have h₁ : Tidy o s₁ := by
          rw [← hs₁]
          exact h.of_sizes rfl rfl rfl rfl
        unfold loadAssigned loadObjects
        simp only [bind_assoc]
        have hopen : Tidy o (openMeta env (configNode doc ["meta".toList]) s₁).state := by
          obtain hopen | ⟨hopen, -⟩ := openMeta_cases env (configNode doc ["meta".toList]) s₁
          · rw [hopen]
            exact h₁.of_sizes rfl rfl rfl rfl
          · rw [hopen]
            exact h₁.of_sizes rfl rfl rfl rfl
        refine load_bind_state hopen (fun _ h => h) fun s₂ h₂ => ?_
        cases hdump : dumpMeta s₂ with
        | error e =>
            obtain ⟨-, db, rfl⟩ := dumpMeta_error hdump
            exact h₂.of_sizes rfl rfl rfl rfl
        | ok s₃ =>
            obtain ⟨rfl, hquiet⟩ := dumpMeta_ok hdump
            rw [h₂.opt] at hquiet
            exact h₂.loadStages hquiet env doc _

/-! ## The unload -/

/-- The state without the heaps and the file system. -/
def State.shell (s : State) : State :=
  { s with files := fun _ => default, freed := [], disks := fun _ => default, fs := fun _ _ => none }

theorem shell_closeService (s : State) (d : DiskPtr) : (closeService s d).shell = s.shell := by
  unfold closeService
  cases (s.disks d).service with
  | none => rfl
  | some pc => cases (s.disks d).createdPath <;> rfl

theorem shell_workloadFreeFile (s : State) (file : Option FilePtr) (io : DeassignIo) :
    (workloadFreeFile s file io).shell = s.shell := by
  have hunlink : ∀ s f d, (unlinkFile s f d).shell = s.shell := by
    intro s f d
    have hnext : (bypassNext s f).shell = s.shell := by
      unfold bypassNext
      cases (s.files f).assignNext <;> rfl
    have hprev : ∀ s : State, (bypassPrev s f d).shell = s.shell := by
      intro s
      unfold bypassPrev
      cases (s.files f).assignPrev <;> rfl
    have hmodify : ∀ (s : State) g g', ((s.modifyDisk d g).modifyFile f g').shell = s.shell :=
      fun _ _ _ => rfl
    unfold unlinkFile
    exact (hmodify _ _ _).trans ((hprev _).trans hnext)
  have hdelete : ∀ s f d, (deleteCreated s f d io).shell = s.shell := by
    intro s f d
    unfold deleteCreated
    split_ifs <;> rfl
  cases file with
  | none => rfl
  | some f =>
      unfold workloadFreeFile workloadDeassignFile
      dsimp only
      cases (s.files f).assignDisk with
      | none => rfl
      | some d => exact (hunlink _ _ _).trans (hdelete _ _ _)

theorem shell_freeFileArray {s : State} (h : s.fileOrdered = [] → s.fileSizes = ([], 0, 0, 0)) :
    (workloadFreeFileArray s).shell =
      { s.shell with fileEven := [], fileSorted := [], fileOrdered := [], fileCount := 0 } := by
  unfold workloadFreeFileArray
  split_ifs with hnil
  · have hsizes := h hnil
    have hsorted : s.fileSorted = [] := List.length_eq_zero_iff.mp (congrArg (·.2.1) hsizes)
    have heven : s.fileEven = [] := List.length_eq_zero_iff.mp (congrArg (·.2.2.1) hsizes)
    have hcount : s.fileCount = 0 := congrArg (·.2.2.2) hsizes
    cases s
    dsimp only at hnil hsorted heven hcount
    subst hnil hsorted heven hcount
    rfl
  · rfl

theorem shell_freeDiskArray {s : State} (h : s.disk = [] → s.diskSizes = ([], 0, 0)) :
    (workloadFreeDiskArray s).shell = { s.shell with disk := [], diskCount := 0, maxNameSize := 0 } := by
  unfold workloadFreeDiskArray
  split_ifs with hnil
  · have hsizes := h hnil
    have hcount : s.diskCount = 0 := congrArg (·.2.1) hsizes
    have hname : s.maxNameSize = 0 := congrArg (·.2.2) hsizes
    cases s
    dsimp only at hnil hcount hname
    subst hnil hcount hname
    rfl
  · rfl

/-- **What an unload leaves** of a tidy workload: the options, the clock, the switches, the fakeoff flag, the
    sample and the number of threads. -/
theorem unload_shell {o : Opt} {s : State} (h : Tidy o s) (io : DeassignIo) :
    (workloadUnloadConfig s io).shell =
      { s.shell with
        nextFileIndex := none
        fileEven := [], fileSorted := [], fileOrdered := [], fileCount := 0, fileHead := []
        disk := [], diskCount := 0, maxNameSize := 0, diskHead := []
        writeCount := 0, readCount := 0, diskErrorCount := 0, diskReadyCount := 0
        db := none, xml := none
        cfg := { workloadInitConfig with accessThreads := s.cfg.accessThreads } } := by
  have hfile : ∀ s₁ : State, s₁.shell = { s.shell with
      nextFileIndex := none
      fileEven := [], fileSorted := [], fileOrdered := [], fileCount := 0 } →
      State.shell { workloadFreeFile s₁ s₁.fileHead.head? io with fileHead := [] } = { s.shell with
        nextFileIndex := none
        fileEven := [], fileSorted := [], fileOrdered := [], fileCount := 0, fileHead := [] } := by
    intro s₁ h₁
    have hfree := (shell_workloadFreeFile s₁ s₁.fileHead.head? io).trans h₁
    exact (congrArg (fun s : State => { s with fileHead := [] }) hfree :)
  have hdisk : ∀ s₂ : State, s₂.shell = { s.shell with
      nextFileIndex := none
      fileEven := [], fileSorted := [], fileOrdered := [], fileCount := 0, fileHead := [] } →
      (workloadFreeDisk (workloadFreeDiskArray s₂)).shell = { s.shell with
        nextFileIndex := none
        fileEven := [], fileSorted := [], fileOrdered := [], fileCount := 0, fileHead := []
        disk := [], diskCount := 0, maxNameSize := 0, diskHead := [] } := by
    intro s₂ h₂
    have hsizes : s₂.diskSizes = s.diskSizes := (congrArg State.diskSizes h₂ :)
    have harray : s₂.disk = s.disk := (congrArg State.disk h₂ :)
    have hfree := shell_freeDiskArray fun hnil => hsizes.trans (h.disk (harray.symm.trans hnil))
    have hclose := foldl_keeps (p := State.shell) shell_closeService
      (workloadFreeDiskArray s₂).diskHead (workloadFreeDiskArray s₂)
    rw [h₂] at hfree
    exact (congrArg (fun s : State => { s with diskHead := [] }) (hclose.trans hfree) :)
  exact (congrArg (fun x : State => ({ x with
    writeCount := 0
    readCount := 0
    diskErrorCount := 0
    diskReadyCount := 0
    db := none
    xml := none
    cfg := { workloadInitConfig with accessThreads := x.cfg.accessThreads } } : State))
    (hdisk _ (hfile _ (shell_freeFileArray (s := { s with nextFileIndex := none }) h.file))) :)

/-! ## Two loads -/

/-- The veil over what an unload leaves behind. -/
def blank (threads : Int → Int) : Veil :=
  ⟨id, fun _ => false, fun _ => false, true, fun _ => ⟨0, 0, 0, 0⟩, fun _ => 0, threads⟩

theorem tidy_exec (t : Nat) (directory : Text → Text) (fs : Text → Text → Option Bytes)
    (options : List (Text × Text)) (ops : List Op) :
    Tidy (workloadInit t directory fs options).opt (exec Op.run (workloadInit t directory fs options) ops) := by
  have hstep : ∀ (o : Opt) (s : State) (op : Op), Tidy o s → Tidy o (op.run s) := by
    intro o s op h
    cases op with
    | load env => exact h.load env
    | unload io =>
        have hu := unload_shell h io
        have hopt : (workloadUnloadConfig s io).opt = s.opt := (congrArg State.opt hu :)
        have hdisk : (workloadUnloadConfig s io).diskSizes = ([], 0, 0) := (congrArg State.diskSizes hu :)
        have hfile : (workloadUnloadConfig s io).fileSizes = ([], 0, 0, 0) :=
          (congrArg State.fileSizes hu :)
        have hthreads : (workloadUnloadConfig s io).cfg.accessThreads = s.cfg.accessThreads :=
          (congrArg (fun s : State => s.cfg.accessThreads) hu :)
        exact ⟨hopt.trans h.opt, fun _ => hdisk, fun _ => hfile, fun hd => hthreads.trans (h.threads hd)⟩
    | _ => exact h.run trivial
  have hinit : Tidy (workloadInit t directory fs options).opt (workloadInit t directory fs options) := by
    obtain ⟨relocate, hform⟩ := init_form t directory fs options
    refine ⟨rfl, fun _ => ?_, fun _ => ?_, fun _ => ?_⟩
    · rw [hform]
      rfl
    · rw [hform]
      rfl
    · rw [hform]
      rfl
  have hrun : Along Op.run (fun _ _ => True) (workloadInit t directory fs options) ops := along_true _ _
  exact exec_invariant (fun s op h _ => hstep _ s op h) hinit hrun

/-- **Under the veil an unloaded workload is a fresh one.** -/
theorem blank_unload {t : Nat} {directory : Text → Text} {fs : Text → Text → Option Bytes}
    {options : List (Text × Text)} {s : State}
    (h : Tidy (workloadInit t directory fs options).opt s) (io : DeassignIo) (t' : Nat) (threads : Int → Int)
    (hthreads : threads s.cfg.accessThreads = threads 0) :
    (blank threads).on (workloadUnloadConfig s io) =
      (blank threads).on ((workloadUnloadConfig s io).renewed t' options) := by
  have hu := unload_shell h io
  generalize workloadUnloadConfig s io = u at hu
  have heta : u = { u.shell with files := u.files, freed := u.freed, disks := u.disks, fs := u.fs } := rfl
  rw [hu] at heta
  generalize u.files = files at heta
  generalize u.disks = disks at heta
  generalize u.fs = fs' at heta
  generalize u.freed = freed at heta
  rw [heta]
  obtain ⟨relocate, hform⟩ := init_form t' s.shell.directory fs' options
  have hopt : (workloadInit t' s.shell.directory fs' options).opt = s.opt :=
    (init_opt t' t s.shell.directory directory fs' fs options).trans h.opt.symm
  rw [hopt] at hform
  unfold State.renewed
  dsimp only
  rw [hform]
  unfold blank Veil.on
  dsimp only
  rw [hthreads]
  simp only [Bool.or_true]
  rfl

/-- The state a load ends in when it returns `0`. -/
def Load.zero : Load → Option State
  | .ok s => some s
  | .error (.returned 0 s) => some s
  | _ => none

theorem zero_returned (code : Int) (s : State) :
    Load.zero (.error (.returned code s)) = if code = 0 then some s else none := by
  split_ifs with hcode
  · rw [hcode]
    rfl
  · unfold Load.zero
    split
    · rename_i h
      exact nomatch h
    · rename_i h
      injection h with h
      injection h with h
      exact absurd h hcode
    · rfl

theorem zero_of_neverZero {x : Load} (h : NeverZero x) {e : LoadExit} (hx : x = .error e) :
    Load.zero (.error e) = none := by
  cases e with
  | returned code s =>
      rw [zero_returned, if_neg]
      rintro rfl
      exact h s hx
  | undefined s => rfl
  | waiting s => rfl

theorem zero_load (v : Veil) (x : Load) : (v.load x).zero = x.zero.map v.on := by
  rcases x with (⟨code, s⟩ | s | s) | s
  · change Load.zero (.error (.returned code (v.on s))) = _
    rw [zero_returned, zero_returned]
    split_ifs <;> rfl
  · rfl
  · rfl
  · rfl

/-- Two stages that end alike under a veil, in front of stages that end alike from there. A stage that fails
    does not return `0`. -/
theorem zero_bind {v w : Veil} {x x' : Load} {next next' : State → Load} (hx : v.load x = v.load x')
    (hfail : ∀ e, x = .error e → Load.zero (.error e) = none)
    (hnext : ∀ s s', x = .ok s → v.on s = v.on s' →
      (next s).zero.map w.on = (next' s').zero.map w.on) :
    (Load.zero (x >>= next)).map w.on = (Load.zero (x' >>= next')).map w.on := by
  cases x with
  | ok s =>
      cases x' with
      | ok s' => exact hnext s s' rfl (Except.ok.inj hx)
      | error e => exact nomatch hx
  | error e =>
      cases x' with
      | ok s' => exact nomatch hx
      | error e' =>
          have hzero : (Load.zero (.error e)).map v.on = (Load.zero (.error e')).map v.on :=
            (zero_load v (.error e)).symm.trans ((congrArg Load.zero hx).trans (zero_load v (.error e')))
          rw [hfail e rfl] at hzero
          have hnone : Load.zero (.error e') = none := Option.map_eq_none_iff.mp hzero.symm
          exact (congrArg (Option.map w.on) ((hfail e rfl).trans hnone.symm) :)

/-- A load that reads the database commutes with every veil. -/
theorem veil_parseConfig_dump (v : Veil) {env : LoadEnv} {doc : Document} {s : State}
    (hdump : s.opt.dumpDisk = true ∨ s.opt.dumpFile = true) :
    parseConfig env doc (v.on s) = v.load (parseConfig env doc s) := by
  rw [parseConfig_eq, parseConfig_eq, Veil.load_openMeta]
  rcases openMeta_cases env (configNode doc ["meta".toList]) s with hopen | ⟨hopen, -⟩
  · have hok : ∀ (s : State) (next : State → Load), (Except.ok s >>= next) = next s := fun _ _ => rfl
    rw [hopen, Veil.load, hok, hok, Veil.load_dumpMeta]
    cases hd : dumpMeta (s.setDb (metaDb env (configNode doc ["meta".toList]))) with
    | ok s₁ => exact absurd hdump (dumpMeta_ok hd).2
    | error e => rfl
  · rw [hopen]
    rfl

/-- The configuration the operation stage fills in depends on the options and the document. -/
theorem blank_parseOperation {doc : Document} {node : Node} {s s' : State}
    (h : (blank fun _ => 0).on s = (blank fun _ => 0).on s') :
    (blank id).on (parseOperation doc node s) = (blank id).on (parseOperation doc node s') := by
  have hnode : ∀ (opt : Opt) pause, parsePause doc opt pause node =
      ((parsePause doc opt pause node).1, (parsePause doc opt false node).2) := by
    intro opt pause
    unfold parsePause
    split_ifs
    · rfl
    · dsimp only
      cases configNode doc ["operation".toList] <;> rfl
  have hform : ∀ s : State, (blank id).on (parseOperation doc node s) =
      { (blank fun _ => 0).on s with cfg := (parseOperation doc node ((blank fun _ => 0).on s)).cfg } := by
    intro s
    unfold parseOperation
    rw [hnode s.opt s.pause]
    rfl
  rw [hform, hform, h]

/-- **Two loads that start alike under the veil end alike**, with the number of threads in sight. -/
theorem blank_parseConfig (env : LoadEnv) (doc : Document) {s s' : State}
    (h : (blank fun _ => 0).on s = (blank fun _ => 0).on s')
    (hdump : s.opt.dumpDisk = true ∨ s.opt.dumpFile = true → (blank id).on s = (blank id).on s') :
    (parseConfig env doc s).zero.map (blank id).on = (parseConfig env doc s').zero.map (blank id).on := by
  have hopt : s.opt = s'.opt := (congrArg State.opt h :)
  by_cases hasked : s.opt.dumpDisk = true ∨ s.opt.dumpFile = true
  · rw [← zero_load, ← zero_load, ← veil_parseConfig_dump _ hasked, ← veil_parseConfig_dump _ (hopt ▸ hasked),
      hdump hasked]
  · rw [parseConfig_eq, parseConfig_eq]
    refine zero_bind (v := blank fun _ => 0) ?_ (fun _ => zero_of_neverZero (neverZero_openMeta _ _ _))
      fun s₁ s₁' hs₁ h₁ => ?_
    · rw [← Veil.load_openMeta, ← Veil.load_openMeta, h]
    obtain ⟨db, rfl⟩ := openMeta_ok hs₁
    refine zero_bind (v := blank fun _ => 0) ?_ (fun e he => absurd (dumpMeta_error he).1 hasked)
      fun s₂ s₂' _ h₂ => ?_
    · rw [← Veil.load_dumpMeta, ← Veil.load_dumpMeta, h₁]
    refine zero_bind (v := blank fun _ => 0) ?_ (fun _ => zero_of_neverZero (neverZero_resetMeta _))
      fun s₃ s₃' _ h₃ => ?_
    · rw [← Veil.load_resetMeta fun _ _ => rfl, ← Veil.load_resetMeta fun _ _ => rfl, h₂]
    rw [← zero_load, ← zero_load, ← veil_loadRest, ← veil_loadRest, blank_parseOperation h₃]

/-! ## What ends up in the fields nobody resets -/

/-- The disk elements that become a disk: a path, no disk of that path and name so far, and memory. -/
def keptElements (env : LoadEnv) : List Node → Nat → List (Text × Text) → List Node
  | [], _, _ => []
  | node :: nodes, k, seen =>
      let subNode := workloadXmlSubNodeEx node "path".toList
      let (path, name) := parseDiskName node (workloadXmlTagData subNode)
      if workloadXmlTagData subNode = [] ∨ seen.contains (path, name) ∨ env.newDisk k = false then
        keptElements env nodes (k + 1) seen
      else
        node :: keptElements env nodes (k + 1)
          (seen ++ [if name = [] then workloadBasename path else (path, name)])

def State.delays (s : State) : List Int := s.diskHead.map fun d => (s.disks d).fakeoffDelay

def State.keys (s : State) : List (Text × Text) :=
  s.diskHead.map fun d => ((s.disks d).path, (s.disks d).name)

/-- A chain with one more disk, read field by field. -/
theorem map_concat_disk {β : Type*} (g : Disk → β) {l : List DiskPtr} {disks : DiskPtr → Disk} {n : DiskPtr}
    {disk : Disk} (hne : ∀ d ∈ l, d ≠ n) :
    (l ++ [n]).map (fun d => g (Function.update disks n disk d)) = l.map (fun d => g (disks d)) ++ [g disk] := by
  have hl : l.map (fun d => g (Function.update disks n disk d)) = l.map fun d => g (disks d) := by
    refine List.map_congr_left fun d hd => ?_
    rw [Function.update_of_ne (hne d hd)]
  rw [List.map_append, hl, List.map_singleton, Function.update_self]

/-- One round of the disk loop, by the delays, and whether the flag is set. -/
theorem addDisk_delays (env : LoadEnv) (k id : Nat) (node : Node) (nodes : List Node) {s : State}
    (hlt : ∀ d ∈ s.diskHead, d < s.nextDisk) :
    (∀ d ∈ (addDisk env k id node s).1.diskHead, d < (addDisk env k id node s).1.nextDisk) ∧
      (addDisk env k id node s).1.useFakeoff = (s.useFakeoff || parseFakeoff node != -1) ∧
      (addDisk env k id node s).1.delays ++
          (keptElements env nodes (k + 1) (addDisk env k id node s).1.keys).map parseFakeoff =
        s.delays ++ (keptElements env (node :: nodes) k s.keys).map parseFakeoff := by
  have hany : ∀ path name, (s.diskHead.any fun d => (s.disks d).path == path && (s.disks d).name == name) =
      s.keys.contains (path, name) := by
    intro path name
    unfold State.keys
    rw [List.contains_eq_any_beq, List.any_map]
    congr 1
    funext d
    exact (BEq.comm : (((s.disks d).path, (s.disks d).name) == (path, name)) = _)
  have hflag : (if parseFakeoff node = -1 then s else { s with useFakeoff := true }) =
      { s with useFakeoff := s.useFakeoff || parseFakeoff node != -1 } := by
    split_ifs with hdelay
    · simp [hdelay]
    · simp [hdelay]
  unfold addDisk
  rw [keptElements]
  dsimp only
  rw [hflag]
  dsimp only
  generalize parseDiskName node (workloadXmlTagData (workloadXmlSubNodeEx node "path".toList)) = key
  rw [hany]
  by_cases hpath : workloadXmlTagData (workloadXmlSubNodeEx node "path".toList) = []
  · rw [if_pos hpath, if_pos (Or.inl hpath)]
    exact ⟨hlt, rfl, rfl⟩
  rw [if_neg hpath]
  by_cases hseen : s.keys.contains (key.1, key.2) = true
  · rw [if_pos hseen, if_pos (Or.inr (Or.inl hseen))]
    exact ⟨hlt, rfl, rfl⟩
  rw [if_neg hseen]
  unfold workloadNewDisk
  cases hnew : env.newDisk k with
  | false =>
      rw [if_pos (Or.inr (Or.inr rfl))]
      exact ⟨hlt, rfl, rfl⟩
  | true =>
      have hkept : ¬(workloadXmlTagData (workloadXmlSubNodeEx node "path".toList) = [] ∨
          s.keys.contains (key.1, key.2) = true ∨ true = false) := by
        rintro (h | h | h)
        · exact hpath h
        · exact hseen h
        · exact nomatch h
      rw [if_neg hkept]
      have hne : ∀ d ∈ s.diskHead, d ≠ s.nextDisk := fun d hd => Nat.ne_of_lt (hlt d hd)
      refine ⟨?_, rfl, ?_⟩
      · intro d hd
        rcases List.mem_append.mp hd with hd | hd
        · exact Nat.lt_succ_of_lt (hlt d hd)
        · rw [List.mem_singleton.mp hd]
          exact Nat.lt_succ_self _
      · simp only [if_true, State.modifyDisk, Function.update_self, Function.update_idem, State.delays, State.keys]
        rw [map_concat_disk Disk.fakeoffDelay hne, map_concat_disk (fun disk => (disk.path, disk.name)) hne,
          List.map_cons, List.append_assoc, List.singleton_append]

/-- **The disk loop, by the delays.** -/
theorem diskLoop_delays {env : LoadEnv} {nodes : List Node} {k id : Nat} {s s' : State}
    (h : diskLoop env nodes k id s = .ok s') (hlt : ∀ d ∈ s.diskHead, d < s.nextDisk) :
    s'.useFakeoff = (s.useFakeoff || nodes.any fun node => parseFakeoff node != -1) ∧
      s'.delays = s.delays ++ (keptElements env nodes k s.keys).map parseFakeoff := by
  induction nodes generalizing k id s with
  | nil =>
      obtain rfl := Except.ok.inj h
      exact ⟨(Bool.or_false _).symm, (List.append_nil _).symm⟩
  | cons node nodes ih =>
      have hround := addDisk_delays env k id node nodes hlt
      unfold diskLoop at h
      split_ifs at h
      generalize addDisk env k id node s = added at hround h
      obtain ⟨s₁, id₁⟩ := added
      obtain ⟨hlt₁, hflag, hdelays⟩ := hround
      obtain ⟨hflag', hdelays'⟩ := ih h hlt₁
      refine ⟨?_, hdelays'.trans hdelays⟩
      rw [hflag', hflag, List.any_cons, Bool.or_assoc]

/-- The disk elements a load visits. -/
def visitedElements (opt : Opt) (doc : Document) : List Node :=
  if opt.dumpDisk = true ∨ opt.dumpFile = true then [] else diskNodes doc

/-- `m_pause` behind a load. -/
def finalPause (opt : Opt) (doc : Document) (pause : Bool) : Bool :=
  if opt.dumpDisk = true ∨ opt.dumpFile = true then pause
  else (parsePause doc opt pause (configNode doc ["meta".toList])).1

theorem fileCarried_delays : FileCarried fun s : State => (s.useFakeoff, s.delays) where
  heap := by
    intros
    rfl
  disk s d h hdelay := by
    refine congrArg (Prod.mk s.useFakeoff) (List.map_congr_left fun e _ => ?_)
    rw [State.modifyDisk_disks]
    split_ifs with he
    · rw [hdelay, he]
    · rfl
  query s stmt := by
    rw [querySet_snd]
    rfl
  arrays := by
    intros
    rfl

theorem carried_sampled : Carried fun s : State => (s.sampled, s.pause) where
  heap := by
    intros
    rfl
  disk := by
    intros
    rfl
  query s stmt := by
    rw [querySet_snd]
    rfl

/-- The stages behind the operation set the flag and load the disks. -/
theorem loadRest_values {env : LoadEnv} {doc : Document} {s u : State} (h : loadRest env doc s = .ok u) :
    u.sampled = s.sampled ∧ u.pause = s.pause ∧
      u.useFakeoff = (s.useFakeoff || (diskNodes doc).any fun node => parseFakeoff node != -1) ∧
      u.delays = (keptElements env (diskNodes doc) 0 []).map parseFakeoff := by
  have hsampled := loadRest_carried (p := fun s : State => (s.sampled, s.pause))
    ⟨carried_sampled, by intros; rfl⟩ ⟨carried_sampled, by intros; rfl⟩ (fun _ _ _ => rfl) env doc s
  rw [h] at hsampled
  refine ⟨congrArg (·.1) hsampled, congrArg (·.2) hsampled, ?_⟩
  unfold loadRest at h
  obtain ⟨s₁, hdisks, hrest⟩ := load_bind_ok.mp h
  unfold loadDisks at hdisks
  obtain ⟨s₀, hloop, harray⟩ := load_bind_ok.mp hdisks
  obtain ⟨hflag, hdelays⟩ := diskLoop_delays hloop fun d hd => nomatch hd
  have hfree : (workloadFreeDisk (workloadFreeDiskArray s)).useFakeoff = s.useFakeoff := by
    refine (foldl_keeps (p := State.useFakeoff) (fun s d => ?_) _ _).trans ?_
    · exact (congrArg State.useFakeoff (shell_closeService s d) :)
    · unfold workloadFreeDiskArray
      split_ifs <;> rfl
  rw [hfree] at hflag
  have hupdate : s₁.useFakeoff = s₀.useFakeoff ∧ s₁.delays = s₀.delays := by
    dsimp only at harray
    split_ifs at harray
    obtain rfl := Except.ok.inj harray
    unfold workloadUpdateDiskArray workloadFreeDiskArray
    dsimp only
    split_ifs <;> exact ⟨rfl, rfl⟩
  have hafter : (u.useFakeoff, u.delays) = (s₁.useFakeoff, s₁.delays) := by
    have hstages : (fun s : State => (s.useFakeoff, s.delays)) (Load.state (loadFiles env s₁ >>= fun s =>
        assignLoop env s.fileCount 1 s >>= fun s => waitServices env.events
          (startServices env (indexFiles env s)))) = (s₁.useFakeoff, s₁.delays) := by
      refine Carried.bind (p := fun s : State => (s.useFakeoff, s.delays))
        (fileCarried_delays.loadFiles env) fun s => ?_
      refine Carried.bind (p := fun s : State => (s.useFakeoff, s.delays))
        (fileCarried_delays.assignLoop env _ 1) fun s => ?_
      refine (fileCarried_delays.waitServices (fun _ _ _ => rfl) env.events).trans ?_
      exact (fileCarried_delays.startServices env).trans (fileCarried_delays.indexFiles env)
    have hend : (loadFiles env s₁ >>= fun s => assignLoop env s.fileCount 1 s >>= fun s =>
        waitServices env.events (startServices env (indexFiles env s))) = .ok u := hrest
    rw [hend] at hstages
    exact hstages
  exact ⟨(congrArg (·.1) hafter).trans (hupdate.1.trans hflag),
    (congrArg (·.2) hafter).trans (hupdate.2.trans hdelays)⟩

/-- **The fields nobody resets**, behind a load that returns `0`. -/
theorem parseConfig_values {env : LoadEnv} {doc : Document} {s u : State} (hnil : s.diskHead = [])
    (h : (parseConfig env doc s).zero = some u) :
    u.sampled = s.sampled ∧ u.pause = finalPause s.opt doc s.pause ∧
      u.useFakeoff = (s.useFakeoff || (visitedElements s.opt doc).any fun node => parseFakeoff node != -1) ∧
      u.delays = (keptElements env (visitedElements s.opt doc) 0 []).map parseFakeoff := by
  cases hparse : parseConfig env doc s with
  | error e =>
      have hzero : e = .returned 0 u := by
        rw [hparse] at h
        cases e with
        | returned code s₁ =>
            rw [zero_returned] at h
            split_ifs at h with hcode
            rw [hcode, Option.some.inj h]
        | undefined s₁ => exact nomatch h
        | waiting s₁ => exact nomatch h
      rw [hzero] at hparse
      obtain ⟨hdump, db, rfl⟩ := parseConfig_returned hparse
      unfold finalPause visitedElements
      rw [if_pos hdump, if_pos hdump]
      refine ⟨rfl, rfl, (Bool.or_false _).symm, ?_⟩
      exact congrArg (List.map fun d => (s.disks d).fakeoffDelay) hnil
  | ok u' =>
      rw [hparse] at h
      obtain rfl : u' = u := Option.some.inj h
      rw [parseConfig_eq] at hparse
      obtain ⟨s₁, hopen, hparse⟩ := load_bind_ok.mp hparse
      obtain ⟨s₂, hdump, hparse⟩ := load_bind_ok.mp hparse
      obtain ⟨s₃, hreset, hparse⟩ := load_bind_ok.mp hparse
      obtain ⟨db₁, rfl⟩ := openMeta_ok hopen
      obtain ⟨rfl, hquiet⟩ := dumpMeta_ok hdump
      obtain ⟨db₃, rfl⟩ := resetMeta_ok hreset
      have hquiet' : ¬(s.opt.dumpDisk = true ∨ s.opt.dumpFile = true) := hquiet
      unfold finalPause visitedElements
      rw [if_neg hquiet', if_neg hquiet']
      exact loadRest_values hparse

/-! ## The whole call -/

/-- The document `workload_load_config` opens. -/
def chosenDocument (env : LoadEnv) (opt : Opt) : Option (Text × Document) :=
  (confTable opt).findSome? fun file => (env.openXml file).map fun doc => (file, doc)

/-- The state the stages begin in. -/
def State.opened (s : State) (file : Text) (doc : Document) : State :=
  { s with xml := some doc, cfg := { s.cfg with configFile := some file } }

/-- A call returns `0` exactly when the stages do, on the document chosen. -/
theorem load_zero_iff {env : LoadEnv} {s u : State} :
    workloadLoadConfig env s = some (0, u) ↔ s.xml = none ∧
      ∃ file doc, chosenDocument env s.opt = some (file, doc) ∧
        (parseConfig env doc (s.opened file doc)).zero = some u := by
  have hcode : ∀ s₁ : State, some ((-1 : Int), s₁) ≠ some (0, u) := by
    intro s₁ h
    exact absurd (congrArg Prod.fst (Option.some.inj h)) (by show ¬(-1 : Int) = 0; decide)
  unfold workloadLoadConfig
  cases s.xml with
  | some doc =>
      refine ⟨fun h => absurd h (hcode _), ?_⟩
      rintro ⟨h, -⟩
      cases h
  | none =>
      dsimp only
      rw [← chosenDocument]
      cases hchosen : chosenDocument env s.opt with
      | none =>
          refine ⟨fun h => absurd h (hcode _), ?_⟩
          rintro ⟨-, file, doc, h, -⟩
          cases h
      | some chosen =>
          obtain ⟨file, doc⟩ := chosen
          dsimp only
          rw [← State.opened]
          generalize hload : parseConfig env doc (s.opened file doc) = load
          have hback : load.zero = some u ↔ (none : Option Document) = none ∧
              ∃ file' doc', some (file, doc) = some (file', doc') ∧
                (parseConfig env doc' (s.opened file' doc')).zero = some u := by
            refine ⟨fun h => ⟨rfl, file, doc, rfl, hload ▸ h⟩, ?_⟩
            rintro ⟨-, file', doc', hsame, h⟩
            obtain ⟨rfl, rfl⟩ := Prod.mk.inj (Option.some.inj hsame)
            exact hload ▸ h
          refine Iff.trans ?_ hback
          rcases load with (⟨code, s₁⟩ | s₁ | s₁) | s₁
          · dsimp only
            rw [zero_returned]
            split_ifs with hzero
            · rw [hzero]
              simp
            · simp [hzero]
          · simp [Load.zero]
          · simp [Load.zero]
          · simp [Load.zero]

/-- Two states that are the same under the veil are loaded alike but for what the veil covers. -/
theorem sameLoaded_iff {s t : State} (h : (blank id).on s = (blank id).on t) :
    SameLoaded s t ↔ s.useFakeoff = t.useFakeoff ∧ s.pause = t.pause ∧ s.sampled = t.sampled := by
  constructor
  · exact fun hsame => ⟨hsame.useFakeoff, hsame.pause, hsame.sampled⟩
  · rintro ⟨hflag, hpause, hsampled⟩
    exact {
      cfg := (congrArg State.cfg h :)
      diskHead := (congrArg State.diskHead h :)
      disk := (congrArg State.disk h :)
      diskCount := (congrArg State.diskCount h :)
      maxNameSize := (congrArg State.maxNameSize h :)
      disks := fun d => (congrArg (fun s : State => s.disks d) h :)
      fileHead := (congrArg State.fileHead h :)
      fileCount := (congrArg State.fileCount h :)
      fileOrdered := (congrArg State.fileOrdered h :)
      fileSorted := (congrArg State.fileSorted h :)
      fileEven := (congrArg State.fileEven h :)
      nextFileIndex := (congrArg State.nextFileIndex h :)
      files := fun f => (congrArg (fun s : State => s.files f) h :)
      useFakeoff := hflag
      pause := hpause
      readCount := (congrArg State.readCount h :)
      writeCount := (congrArg State.writeCount h :)
      sampled := hsampled }

/-- The load decides about the pause switch: an option does, or the element `operation`. -/
def SetsPause (opt : Opt) (doc : Document) : Prop :=
  ¬(opt.dumpDisk = true ∨ opt.dumpFile = true) ∧
    (opt.pause ≠ -1 ∨ configNode doc ["operation".toList] ≠ [])

/-- What the last run left does not show: its sample is zero, its pause switch is off or the load decides,
    and when the flag is on, or comes on at an element, a disk with a delay is loaded. -/
structure LeavesNoTrace (env : LoadEnv) (doc : Document) (s : State) : Prop where
  sampled : s.sampled = ⟨0, 0, 0, 0⟩
  pause : s.pause = false ∨ SetsPause s.opt doc
  fakeoff : (s.useFakeoff = true ∨ ∃ node ∈ visitedElements s.opt doc, parseFakeoff node ≠ -1) →
    ∃ node ∈ keptElements env (visitedElements s.opt doc) 0 [], parseFakeoff node ≠ -1

theorem finalPause_iff {opt : Opt} {doc : Document} {pause : Bool} :
    finalPause opt doc pause = finalPause opt doc false ↔ pause = false ∨ SetsPause opt doc := by
  unfold finalPause SetsPause parsePause
  by_cases hdump : opt.dumpDisk = true ∨ opt.dumpFile = true
  · simp [hdump]
  · by_cases hopt : opt.pause = -1
    · cases configNode doc ["operation".toList] <;> simp [hdump, hopt]
    · simp [hdump, hopt]

/-- A kept element is visited. -/
theorem mem_of_keptElements {env : LoadEnv} {nodes : List Node} {k : Nat} {seen : List (Text × Text)}
    {node : Node} (h : node ∈ keptElements env nodes k seen) : node ∈ nodes := by
  induction nodes generalizing k seen with
  | nil => exact nomatch h
  | cons x nodes ih =>
      rw [keptElements] at h
      dsimp only at h
      split at h
      · exact List.mem_cons_of_mem _ (ih h)
      · rcases List.mem_cons.mp h with rfl | h
        · exact List.mem_cons_self
        · exact List.mem_cons_of_mem _ (ih h)

/-- **A reload equals a fresh start**, and the fakeoff flag says whether a disk with a delay is loaded, exactly
    when the last run leaves no trace. -/
theorem reload_fresh {t t' : Nat} {directory : Text → Text} {fs : Text → Text → Option Bytes}
    {options : List (Text × Text)} {ops : List Op} {io : DeassignIo} {env : LoadEnv} {s u : State}
    (hs : exec Op.run (workloadInit t directory fs options) ops = s)
    (hload : workloadLoadConfig env (workloadUnloadConfig s io) = some (0, u)) :
    (∃ f, workloadLoadConfig env ((workloadUnloadConfig s io).renewed t' options) = some (0, f) ∧
        SameLoaded u f ∧ (u.useFakeoff = true ↔ HasDelay u)) ↔
      ∃ file doc, chosenDocument env s.opt = some (file, doc) ∧ LeavesNoTrace env doc s := by
  have htidy : Tidy (workloadInit t directory fs options).opt s := hs ▸ tidy_exec t directory fs options ops
  have hshell := unload_shell htidy io
  have hhide := blank_unload htidy io t'
  generalize workloadUnloadConfig s io = v at hload hshell hhide
  have hopt : v.opt = s.opt := (congrArg State.opt hshell :)
  have hpause : v.pause = s.pause := (congrArg State.pause hshell :)
  have hflag : v.useFakeoff = s.useFakeoff := (congrArg State.useFakeoff hshell :)
  have hsampled : v.sampled = s.sampled := (congrArg State.sampled hshell :)
  have hdisks : v.diskHead = [] := (congrArg State.diskHead hshell :)
  -- the fresh workload
  obtain ⟨relocate, hform⟩ := init_form t' v.directory v.fs options
  have hfresh : (v.renewed t' options).opt = s.opt ∧ (v.renewed t' options).xml = none ∧
      (v.renewed t' options).pause = false ∧ (v.renewed t' options).useFakeoff = false ∧
      (v.renewed t' options).sampled = ⟨0, 0, 0, 0⟩ ∧ (v.renewed t' options).diskHead = [] := by
    unfold State.renewed
    rw [hform]
    exact ⟨(init_opt t' t v.directory directory v.fs fs options).trans htidy.opt.symm, rfl, rfl, rfl, rfl, rfl⟩
  generalize v.renewed t' options = w at hfresh hhide
  obtain ⟨hwopt, hwxml, hwpause, hwflag, hwsampled, hwdisks⟩ := hfresh
  -- both calls choose the same document
  obtain ⟨-, file, doc, hchosen, hzero⟩ := load_zero_iff.mp hload
  rw [hopt] at hchosen
  have hblank : (blank fun _ => 0).on (v.opened file doc) = (blank fun _ => 0).on (w.opened file doc) :=
    (congrArg (fun s : State => s.opened file doc) (hhide (fun _ => 0) rfl) :)
  have hdumped : (v.opened file doc).opt.dumpDisk = true ∨ (v.opened file doc).opt.dumpFile = true →
      (blank id).on (v.opened file doc) = (blank id).on (w.opened file doc) := by
    intro hdump
    have hthreads : s.cfg.accessThreads = 0 := by
      refine htidy.threads ?_
      rw [← htidy.opt, ← hopt]
      exact hdump
    exact (congrArg (fun s : State => s.opened file doc) (hhide id hthreads) :)
  have hsame := blank_parseConfig env doc hblank hdumped
  rw [hzero] at hsame
  obtain ⟨f, hf, hveil⟩ : ∃ f, (parseConfig env doc (w.opened file doc)).zero = some f ∧
      (blank id).on f = (blank id).on u := Option.map_eq_some_iff.mp hsame.symm
  have hfload : workloadLoadConfig env w = some (0, f) :=
    load_zero_iff.mpr ⟨hwxml, file, doc, (by rw [hwopt]; exact hchosen), hf⟩
  -- the fields nobody resets
  obtain ⟨husampled, hupause, huflag, hudelays⟩ :=
    parseConfig_values (s := v.opened file doc) hdisks hzero
  obtain ⟨hfsampled, hfpause, hfflag, -⟩ := parseConfig_values (s := w.opened file doc) hwdisks hf
  rw [show (v.opened file doc).sampled = s.sampled from hsampled] at husampled
  rw [show (v.opened file doc).opt = s.opt from hopt] at hupause huflag hudelays
  rw [show (v.opened file doc).pause = s.pause from hpause] at hupause
  rw [show (v.opened file doc).useFakeoff = s.useFakeoff from hflag] at huflag
  rw [show (w.opened file doc).sampled = ⟨0, 0, 0, 0⟩ from hwsampled] at hfsampled
  rw [show (w.opened file doc).opt = s.opt from hwopt] at hfpause hfflag
  rw [show (w.opened file doc).pause = false from hwpause] at hfpause
  rw [show (w.opened file doc).useFakeoff = false from hwflag, Bool.false_or] at hfflag
  have hdelay : HasDelay u ↔
      ∃ node ∈ keptElements env (visitedElements s.opt doc) 0 [], parseFakeoff node ≠ -1 := by
    have hmem : HasDelay u ↔ ∃ delay ∈ u.delays, delay ≠ -1 := by
      unfold HasDelay State.delays
      simp
    rw [hmem, hudelays]
    simp
  have hvisited : ((visitedElements s.opt doc).any fun node => parseFakeoff node != -1) = true ↔
      ∃ node ∈ visitedElements s.opt doc, parseFakeoff node ≠ -1 := by
    simp
  have hkept : HasDelay u → ∃ node ∈ visitedElements s.opt doc, parseFakeoff node ≠ -1 := by
    intro h
    obtain ⟨node, hnode, hne⟩ := hdelay.mp h
    exact ⟨node, mem_of_keptElements hnode, hne⟩
  have huflag' : u.useFakeoff = true ↔
      s.useFakeoff = true ∨ ∃ node ∈ visitedElements s.opt doc, parseFakeoff node ≠ -1 := by
    rw [huflag, Bool.or_eq_true, hvisited]
  have hfflag' : f.useFakeoff = true ↔ ∃ node ∈ visitedElements s.opt doc, parseFakeoff node ≠ -1 := by
    rw [hfflag, hvisited]
  have hcore : SameLoaded u f ∧ (u.useFakeoff = true ↔ HasDelay u) ↔ LeavesNoTrace env doc s := by
    rw [sameLoaded_iff hveil.symm, hupause, hfpause, finalPause_iff, husampled, hfsampled]
    constructor
    · rintro ⟨⟨-, hpause', hsampled'⟩, hiff⟩
      exact ⟨hsampled', hpause', fun h => hdelay.mp (hiff.mp (huflag'.mpr h))⟩
    · intro h
      have hiff : u.useFakeoff = true ↔ HasDelay u :=
        ⟨fun hset => hdelay.mpr (h.fakeoff (huflag'.mp hset)), fun hd => huflag'.mpr (Or.inr (hkept hd))⟩
      refine ⟨⟨?_, h.pause, h.sampled⟩, hiff⟩
      rw [Bool.eq_iff_iff, hfflag', hiff]
      exact ⟨hkept, fun hd => hdelay.mpr (h.fakeoff (Or.inr hd))⟩
  constructor
  · rintro ⟨f', hf', hresult⟩
    obtain rfl : f = f' := congrArg Prod.snd (Option.some.inj (hfload.symm.trans hf'))
    exact ⟨file, doc, hchosen, hcore.mp hresult⟩
  · rintro ⟨file', doc', hchosen', htrace⟩
    obtain ⟨rfl, rfl⟩ := Prod.mk.inj (Option.some.inj (hchosen.symm.trans hchosen'))
    exact ⟨f, hfload, hcore.mpr htrace⟩

/-! ## A reload of the small configuration -/

/-- The small configuration once more, behind a run of it. -/
def smallAgain : LoadEnv :=
  { smallEnv [] small_fits none with
    events := List.replicate 6 (.service 2 smallService) ++ List.replicate 6 (.service 3 smallService) ++
      [.poll false] }

/-- The small configuration with a delay on its first disk. -/
def delayedEnv : LoadEnv :=
  let delayed : Xml := .element "disk".toList [("fakeoff".toList, "5".toList)] []
    [.element "path".toList [] "a".toList []]
  let operation : Xml := .element "operation".toList [] [] [.element "files".toList [] "2".toList []]
  let root : Xml := .element "workload".toList [] [] [.element "config".toList [] []
    [operation, .element "storage".toList [] [] [delayed, .element "disk".toList [] []
      [.element "path".toList [] "b".toList []]]]]
  { smallEnv [] small_fits none with openXml := fun _ => some ⟨root, by decide⟩ }

theorem zero_of_code {x : Option (Int × State)} (h : x.map Prod.fst = some 0) : ∃ u, x = some (0, u) := by
  rcases x with _ | ⟨c, s⟩
  · exact nomatch h
  · obtain rfl : c = 0 := Option.some.inj h
    exact ⟨s, rfl⟩

/-- A run of the small configuration, and a reload. -/
theorem reload_fresh_small : ∃ u,
    workloadLoadConfig smallAgain (workloadUnloadConfig
      (exec Op.run (workloadInit 0 id (fun _ _ => none) []) (smallRun (smallEnv [] small_fits none)))
      ⟨true, true⟩) = some (0, u) ∧
    ((∃ f, workloadLoadConfig smallAgain ((workloadUnloadConfig
          (exec Op.run (workloadInit 0 id (fun _ _ => none) []) (smallRun (smallEnv [] small_fits none)))
          ⟨true, true⟩).renewed 0 []) = some (0, f) ∧
        SameLoaded u f ∧ (u.useFakeoff = true ↔ HasDelay u)) ↔
      ∃ file doc, chosenDocument smallAgain (exec Op.run (workloadInit 0 id (fun _ _ => none) [])
          (smallRun (smallEnv [] small_fits none))).opt = some (file, doc) ∧
        LeavesNoTrace smallAgain doc (exec Op.run (workloadInit 0 id (fun _ _ => none) [])
          (smallRun (smallEnv [] small_fits none)))) := by
  obtain ⟨u, hu⟩ := zero_of_code (x := workloadLoadConfig smallAgain (workloadUnloadConfig
    (exec Op.run (workloadInit 0 id (fun _ _ => none) []) (smallRun (smallEnv [] small_fits none)))
    ⟨true, true⟩)) (by decide +kernel)
  exact ⟨u, hu, reload_fresh rfl hu⟩

/-- **The flag of an earlier configuration stays set**: a run with a delay, and a reload without one. -/
theorem reload_keeps_fakeoff : ∃ u f,
    workloadLoadConfig smallAgain (workloadUnloadConfig
      (exec Op.run (workloadInit 0 id (fun _ _ => none) []) (smallRun delayedEnv)) ⟨true, true⟩) =
        some (0, u) ∧
    workloadLoadConfig smallAgain ((workloadUnloadConfig
      (exec Op.run (workloadInit 0 id (fun _ _ => none) []) (smallRun delayedEnv)) ⟨true, true⟩).renewed 0 []) =
        some (0, f) ∧
    ¬ SameLoaded u f ∧ ¬(u.useFakeoff = true ↔ HasDelay u) := by
  obtain ⟨u, hu, huflag, hudelays⟩ : ∃ u, workloadLoadConfig smallAgain (workloadUnloadConfig
      (exec Op.run (workloadInit 0 id (fun _ _ => none) []) (smallRun delayedEnv)) ⟨true, true⟩) =
        some (0, u) ∧ u.useFakeoff = true ∧ u.delays = [-1, -1] := by
    have h : (workloadLoadConfig smallAgain (workloadUnloadConfig
        (exec Op.run (workloadInit 0 id (fun _ _ => none) []) (smallRun delayedEnv)) ⟨true, true⟩)).map
          (fun r => (r.1, r.2.useFakeoff, r.2.delays)) = some (0, true, [-1, -1]) := by
      decide +kernel
    obtain ⟨⟨code, u⟩, hu, hvalues⟩ := Option.map_eq_some_iff.mp h
    obtain ⟨rfl, hflag, hdelays⟩ : code = 0 ∧ u.useFakeoff = true ∧ u.delays = [-1, -1] := by
      simpa using hvalues
    exact ⟨u, hu, hflag, hdelays⟩
  obtain ⟨f, hf, hfflag⟩ : ∃ f, workloadLoadConfig smallAgain ((workloadUnloadConfig
      (exec Op.run (workloadInit 0 id (fun _ _ => none) []) (smallRun delayedEnv)) ⟨true, true⟩).renewed 0 []) =
        some (0, f) ∧ f.useFakeoff = false := by
    have h : (workloadLoadConfig smallAgain ((workloadUnloadConfig (exec Op.run
        (workloadInit 0 id (fun _ _ => none) []) (smallRun delayedEnv)) ⟨true, true⟩).renewed 0 [])).map
          (fun r => (r.1, r.2.useFakeoff)) = some (0, false) := by
      decide +kernel
    obtain ⟨⟨code, f⟩, hf, hvalues⟩ := Option.map_eq_some_iff.mp h
    obtain ⟨rfl, hflag⟩ : code = 0 ∧ f.useFakeoff = false := by
      simpa using hvalues
    exact ⟨f, hf, hflag⟩
  refine ⟨u, f, hu, hf, fun hsame => ?_, fun hiff => ?_⟩
  · exact absurd (huflag.symm.trans (hsame.useFakeoff.trans hfflag)) (by decide)
  · obtain ⟨d, hd, hdelay⟩ := hiff.mp huflag
    have hmem : (u.disks d).fakeoffDelay ∈ u.delays := List.mem_map_of_mem hd
    rw [hudelays] at hmem
    simp only [List.mem_cons, List.not_mem_nil, or_false, or_self] at hmem
    exact hdelay hmem

end Workload
