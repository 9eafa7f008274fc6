import Workload.Correctness.Placement

/-!
# `Correctness.Loading` — what a load leaves behind

A load starts from an `Idle` workload: after `workload_init`, or after `workload_unload_config`. `Prepared` is
the state behind the stages that build the objects: fresh disks and files, arrays that list them, nothing
assigned and nothing counted. Each stage has its lemma; `loadObjects_prepared` puts them together.
-/

namespace Workload

/-- Nothing is loaded. -/
structure Idle (s : State) : Prop where
  diskHead : s.diskHead = []
  disk : s.disk = []
  diskCount : s.diskCount = 0
  fileHead : s.fileHead = []
  fileOrdered : s.fileOrdered = []
  fileSorted : s.fileSorted = []
  fileEven : s.fileEven = []
  fileCount : s.fileCount = 0
  nextFileIndex : s.nextFileIndex = none
  readCount : s.readCount = 0
  writeCount : s.writeCount = 0
  service : ∀ d, (s.disks d).service = none

/-- An option is noted, or it switches relocation on. -/
theorem parseOptionCase_cases (s : State) (option : Text × Text) :
    (∃ opt, parseOptionCase s option = { s with opt := opt }) ∨
      parseOptionCase s option = workloadSetMainRelocate s true := by
  have hite : ∀ {c : Prop} [Decidable c] {x y : State} {P : State → Prop},
      P x → P y → P (if c then x else y) := by
    intro c _ x y P hx hy
    split_ifs
    · exact hx
    · exact hy
  obtain ⟨name, optarg⟩ := option
  unfold parseOptionCase
  dsimp only
  generalize hP : (fun s' : State => (∃ opt, s' = { s with opt := opt }) ∨
    s' = workloadSetMainRelocate s true) = P
  have hopt : ∀ opt, P { s with opt := opt } := fun opt => hP ▸ Or.inl ⟨opt, rfl⟩
  have hrelocate : P (workloadSetMainRelocate s true) := hP ▸ Or.inr rfl
  suffices h : P _ by
    rw [← hP] at h
    exact h
  repeat first | refine hite (hopt _) ?_ | refine hite hrelocate ?_
  exact hopt s.opt

/-- Options do not load anything. -/
theorem Idle.parseOptionCase {s : State} (hs : Idle s) (option : Text × Text) :
    Idle (parseOptionCase s option) := by
  obtain ⟨opt, h⟩ | h := parseOptionCase_cases s option
  · rw [h]
    exact ⟨hs.diskHead, hs.disk, hs.diskCount, hs.fileHead, hs.fileOrdered, hs.fileSorted,
      hs.fileEven, hs.fileCount, hs.nextFileIndex, hs.readCount, hs.writeCount, hs.service⟩
  · have hsection : workloadSetMainRelocate s true = s.setRelocate true := by
      unfold workloadSetMainRelocate relocateSection
      rw [show (s.setRelocate true).diskHead = [] from hs.diskHead]
      rfl
    rw [h, hsection]
    exact ⟨hs.diskHead, hs.disk, hs.diskCount, hs.fileHead, hs.fileOrdered, hs.fileSorted,
      hs.fileEven, hs.fileCount, hs.nextFileIndex, hs.readCount, hs.writeCount, hs.service⟩

/-- **A new workload is idle.** -/
theorem idle_init (timeStamp : Nat) (directory : Text → Text) (fs : Text → Text → Option Bytes)
    (options : List (Text × Text)) :
    Idle (workloadInit timeStamp directory fs options) := by
  unfold workloadInit
  refine List.foldlRecOn options _ ?_ fun s hs option _ => hs.parseOptionCase option
  constructor <;> first | rfl | exact fun _ => rfl

/-- A disk as `workload_new_disk` leaves it, in place `i` of the chain. -/
structure FreshDisk (i : Nat) (disk : Disk) : Prop where
  id : disk.id = i + 1
  insertedDb : disk.insertedDb = false
  service : disk.service = none
  createdPath : disk.createdPath = none
  readCount : disk.readCount = 0
  writeCount : disk.writeCount = 0
  assignFileCount : disk.assignFileCount = 0
  assignFile : disk.assignFile = none

/-- A file as `workload_new_file` and `workload_update_file_array` leave it, in place `i` of the chain. -/
structure FreshFile (cfg : Cfg) (i : Nat) (file : File) : Prop where
  id : file.id = i + 1
  filename : file.filename = formatFilename cfg (i + 1)
  assignNext : file.assignNext = none
  assignDisk : file.assignDisk = none
  reassignDisk : file.reassignDisk = none
  created : file.created = false
  insertedDb : file.insertedDb = false
  readCount : file.readCount = 0
  writeCount : file.writeCount = 0

/-- The objects of a configuration exist, nothing is assigned, nothing is counted. -/
structure Prepared (s : State) : Prop where
  disk : s.disk = s.diskHead
  diskCount : s.diskCount = s.diskHead.length
  diskHead_lt : s.diskHead.length < 2 ^ 20
  diskHead_nodup : s.diskHead.Nodup
  fileHead_nodup : s.fileHead.Nodup
  fileOrdered : s.fileOrdered = s.fileHead
  fileSorted : s.fileSorted = s.fileHead
  fileEven : s.fileEven = s.fileHead
  fileCount : s.fileCount = s.fileHead.length
  fileHead_le : s.fileHead.length ≤ s.cfg.filecount
  filecount_pos : 0 < s.cfg.filecount
  filecount_le : s.cfg.filecount ≤ defWorkloadConfigMaxFiles
  disks : ∀ i d, s.diskHead[i]? = some d → FreshDisk i (s.disks d)
  files : ∀ i f, s.fileHead[i]? = some f → FreshFile s.cfg i (s.files f)
  indexes : ∀ i f, s.fileHead[i]? = some f → (s.files f).index = i
  readCount : s.readCount = 0
  writeCount : s.writeCount = 0
  nextFileIndex : s.nextFileIndex = none
  service : ∀ d, (s.disks d).service = none

/-! ## Sequencing -/

/-- A stage that goes on ends where the next one starts. -/
theorem load_bind_ok {x : Load} {next : State → Load} {s' : State} :
    (x >>= next) = .ok s' ↔ ∃ s, x = .ok s ∧ next s = .ok s' := by
  cases x with
  | error e => exact ⟨nofun, fun ⟨s, h, _⟩ => nomatch h⟩
  | ok s => exact ⟨fun h => ⟨s, rfl, h⟩, fun ⟨s₁, h₁, h₂⟩ => (Except.ok.inj h₁) ▸ h₂⟩

/-! ## Database stages -/

/-- A query changes nothing but the handle. -/
theorem querySet_snd (s : State) (stmt : Stmt) :
    (querySet s stmt).2 = s.setDb (s.db.map fun db => db.after stmt) := by
  unfold querySet
  cases hdb : s.db with
  | none =>
      show s = s.setDb none
      rw [← hdb]
      rfl
  | some db => simp

theorem querySets_snd (stmts : List Stmt) (s : State) :
    ∃ db, (querySets s stmts).2 = s.setDb db ∧ db.isNone = s.db.isNone := by
  have hnone : ∀ (db : Option Db) stmt, (db.map fun db => db.after stmt).isNone = db.isNone := by
    intro db stmt
    cases db <;> rfl
  induction stmts generalizing s with
  | nil => exact ⟨s.db, rfl, rfl⟩
  | cons stmt stmts ih =>
      unfold querySets orFail
      split_ifs
      · exact ⟨_, querySet_snd s stmt, hnone _ stmt⟩
      · rw [querySet_snd]
        obtain ⟨db, hdb, hisNone⟩ := ih (s.setDb (s.db.map fun db => db.after stmt))
        exact ⟨db, hdb, hisNone.trans (hnone _ stmt)⟩

/-- Queries in order fail at the first failure that is noticed. -/
theorem querySets_failed {s : State} {db : Db} (hdb : s.db = some db) (stmts : List Stmt) :
    (querySets s stmts).1 = -1 ↔ ∃ n < stmts.length, db.noticed (db.composed + n) = true := by
  induction stmts generalizing s db with
  | nil => simp [querySets]
  | cons stmt stmts ih =>
      have hquery : querySet s stmt = ((workloadDbQuerySet db stmt).1, s.setDb (some (db.after stmt))) := by
        unfold querySet
        rw [hdb]
        dsimp only
        rw [workloadDbQuerySet_snd]
      have hfailed := workloadDbQuerySet_failed db stmt
      unfold querySets orFail
      rw [hquery]
      dsimp only
      split_ifs with hresult
      · exact ⟨fun _ => ⟨0, by simp, hfailed.mp hresult⟩, fun _ => rfl⟩
      · rw [ih (s := s.setDb (some (db.after stmt))) rfl]
        simp only [Db.after_noticed, Db.after_composed, List.length_cons]
        constructor
        · rintro ⟨n, hn, hnoticed⟩
          exact ⟨n + 1, by omega, by rwa [Nat.add_assoc, Nat.add_comm 1] at hnoticed⟩
        · rintro ⟨n, hn, hnoticed⟩
          cases n with
          | zero => exact absurd (hfailed.mpr hnoticed) hresult
          | succ n => exact ⟨n, by omega, by rwa [Nat.add_assoc, Nat.add_comm 1]⟩

/-- The database stages change nothing but the handle. -/
theorem openMeta_ok {env : LoadEnv} {node : Node} {s s' : State} (h : openMeta env node s = .ok s') :
    ∃ db, s' = s.setDb db := by
  unfold openMeta at h
  dsimp only at h
  split at h
  · exact ⟨none, (Except.ok.inj h).symm⟩
  · split_ifs at h
    · split at h
      · exact nomatch h
      · exact ⟨_, (Except.ok.inj h).symm⟩
    · split at h
      · exact ⟨_, (Except.ok.inj h).symm⟩
      · exact nomatch h
    · exact ⟨none, (Except.ok.inj h).symm⟩

theorem dumpMeta_ok {s s' : State} (h : dumpMeta s = .ok s') :
    s' = s ∧ ¬(s.opt.dumpDisk = true ∨ s.opt.dumpFile = true) := by
  unfold dumpMeta at h
  split_ifs at h with hopt
  exact ⟨(Except.ok.inj h).symm, hopt⟩

theorem queryGet_eq (s : State) (stmt : Stmt) : ∃ db, queryGet s stmt = s.setDb db := by
  unfold queryGet
  split
  · exact ⟨s.db, rfl⟩
  · exact ⟨_, rfl⟩

/-- Reporting the database ends the load with `0` and sets the break flag. -/
theorem dumpMeta_error {s : State} {e : LoadExit} (h : dumpMeta s = .error e) :
    (s.opt.dumpDisk = true ∨ s.opt.dumpFile = true) ∧
      ∃ db, e = .returned 0 { s.setDb db with breakPtr := true } := by
  unfold dumpMeta at h
  by_cases hopt : s.opt.dumpDisk ∨ s.opt.dumpFile
  case neg =>
    rw [if_neg hopt] at h
    exact nomatch h
  rw [if_pos hopt] at h
  have hget : ∀ (b : Bool) (s₁ : State) stmt,
      ∃ db, (if b then queryGet s₁ stmt else s₁) = s₁.setDb db := by
    intro b s₁ stmt
    cases b with
    | true => exact queryGet_eq s₁ stmt
    | false => exact ⟨s₁.db, rfl⟩
  obtain ⟨db, hdb⟩ := hget s.opt.dumpDisk s .selectDisk
  obtain ⟨db', hdb'⟩ := hget s.opt.dumpFile (s.setDb db) .selectFile
  have hopt' : (s.setDb db).opt.dumpFile = s.opt.dumpFile := rfl
  dsimp only at h
  rw [hdb, hopt', hdb'] at h
  exact ⟨hopt, db', (Except.error.inj h).symm⟩

theorem resetMeta_ok {s s' : State} (h : resetMeta s = .ok s') : ∃ db, s' = s.setDb db := by
  unfold resetMeta at h
  cases hdb : s.db with
  | none =>
      rw [hdb] at h
      exact ⟨s.db, (Except.ok.inj h).symm⟩
  | some db =>
      obtain ⟨db', hdb'⟩ : ∃ db', (workloadResetDb s).2 = s.setDb db' := by
        unfold workloadResetDb
        rw [hdb]
        obtain ⟨db', hdb', -⟩ := querySets_snd [.dropFile, .dropDisk, .createDisk, .createFile] s
        exact ⟨db', hdb'⟩
      simp only [hdb] at h
      split_ifs at h
      · exact ⟨none, by rw [← Except.ok.inj h, hdb']; rfl⟩
      · exact ⟨db', by rw [← Except.ok.inj h, hdb']⟩

/-! ## Disk stage -/

/-- The chain of disks built so far: no repetition, and the ids count it. -/
structure DisksBuilt (s : State) : Prop where
  nodup : s.diskHead.Nodup
  allocated : ∀ d ∈ s.diskHead, d < s.nextDisk
  disks : ∀ i d, s.diskHead[i]? = some d → FreshDisk i (s.disks d)
  service : ∀ d, (s.disks d).service = none

/-- The fields the disk loop writes. -/
def DiskChange (s s' : State) : Prop :=
  ∃ useFakeoff disks nextDisk diskHead,
    s' = { s with
      useFakeoff := useFakeoff, disks := disks, nextDisk := nextDisk, diskHead := diskHead }

theorem DiskChange.refl (s : State) : DiskChange s s :=
  ⟨s.useFakeoff, s.disks, s.nextDisk, s.diskHead, rfl⟩

theorem DiskChange.trans {s₁ s₂ s₃ : State} (h₁ : DiskChange s₁ s₂) (h₂ : DiskChange s₂ s₃) :
    DiskChange s₁ s₃ := by
  obtain ⟨u, ds, n, l, rfl⟩ := h₁
  obtain ⟨u', ds', n', l', rfl⟩ := h₂
  exact ⟨u', ds', n', l', rfl⟩

/-- An element of a chain that got one more node at its tail. -/
theorem getElem?_concat_cases {α : Type*} {l : List α} {a b : α} {i : Nat}
    (h : (l ++ [a])[i]? = some b) : l[i]? = some b ∨ i = l.length ∧ b = a := by
  by_cases hi : i < l.length
  · left
    rwa [List.getElem?_append_left hi] at h
  · right
    rw [List.getElem?_append_right (by omega)] at h
    obtain ⟨hlt, hget⟩ := List.getElem?_eq_some_iff.mp h
    simp only [List.length_singleton] at hlt
    refine ⟨by omega, ?_⟩
    simpa using hget.symm

/-- Adding a fresh disk at the tail keeps the chain built. -/
theorem DisksBuilt.concat {s : State} (hs : DisksBuilt s) {disk : Disk}
    (hdisk : FreshDisk s.diskHead.length disk) (useFakeoff : Bool) :
    DisksBuilt { s with
      useFakeoff := useFakeoff
      disks := Function.update s.disks s.nextDisk disk
      nextDisk := s.nextDisk + 1
      diskHead := s.diskHead ++ [s.nextDisk] } := by
  have hnew : s.nextDisk ∉ s.diskHead := fun h => Nat.lt_irrefl _ (hs.allocated _ h)
  constructor
  · show (s.diskHead ++ [s.nextDisk]).Nodup
    rw [List.nodup_append_comm, List.singleton_append]
    exact List.nodup_cons.mpr ⟨hnew, hs.nodup⟩
  · show ∀ d ∈ s.diskHead ++ [s.nextDisk], d < s.nextDisk + 1
    intro d hd
    rcases List.mem_append.mp hd with hd | hd
    · exact Nat.lt_succ_of_lt (hs.allocated d hd)
    · rw [List.mem_singleton.mp hd]
      exact Nat.lt_succ_self _
  · intro i d hid
    show FreshDisk i (Function.update s.disks s.nextDisk disk d)
    rcases getElem?_concat_cases hid with hid | ⟨rfl, rfl⟩
    · have hne : d ≠ s.nextDisk := fun he => hnew (he ▸ List.mem_of_getElem? hid)
      rw [Function.update_of_ne hne]
      exact hs.disks i d hid
    · rw [Function.update_self]
      exact hdisk
  · intro d
    show (Function.update s.disks s.nextDisk disk d).service = none
    by_cases hd : d = s.nextDisk
    · rw [hd, Function.update_self]
      exact hdisk.service
    · rw [Function.update_of_ne hd]
      exact hs.service d

/-- One round of the disk loop: no disk and the same id, or one more disk with this id. -/
theorem addDisk_cases (env : LoadEnv) (k id : Nat) (node : Node) (s : State) :
    (∃ u, addDisk env k id node s = ({ s with useFakeoff := u }, id)) ∨
    ∃ u disk, addDisk env k id node s =
        ({ s with
          useFakeoff := u
          disks := Function.update s.disks s.nextDisk disk
          nextDisk := s.nextDisk + 1
          diskHead := s.diskHead ++ [s.nextDisk] }, (id + 1) % 2 ^ 32) ∧
      ∀ i, id = i + 1 → FreshDisk i disk := by
  unfold addDisk
  dsimp only
  obtain ⟨u, hu⟩ : ∃ u, (if parseFakeoff node = -1 then s else { s with useFakeoff := true }) =
      { s with useFakeoff := u } := by
    split_ifs
    · exact ⟨s.useFakeoff, rfl⟩
    · exact ⟨true, rfl⟩
  rw [hu]
  split_ifs
  · exact Or.inl ⟨u, rfl⟩
  · exact Or.inl ⟨u, rfl⟩
  · unfold workloadNewDisk
    by_cases hok : env.newDisk k = true
    · right
      simp only [hok, if_true, State.modifyDisk, Function.update_self, Function.update_idem]
      refine ⟨u, _, rfl, fun i hi => ?_⟩
      constructor <;> first | rfl | exact hi
    · left
      simp only [hok]
      exact ⟨u, rfl⟩

/-- **The disk loop** keeps the chain built and adds at most one disk for each element. -/
theorem diskLoop_ok {env : LoadEnv} {nodes : List Node} {k id : Nat} {s s' : State}
    (h : diskLoop env nodes k id s = .ok s') (hs : DisksBuilt s)
    (hid : id = s.diskHead.length + 1) (hlen : s.diskHead.length + nodes.length < 2 ^ 20) :
    DisksBuilt s' ∧ DiskChange s s' ∧ s'.diskHead.length < 2 ^ 20 := by
  induction nodes generalizing k id s with
  | nil =>
      obtain rfl := Except.ok.inj h
      exact ⟨hs, DiskChange.refl s, hlen⟩
  | cons node nodes ih =>
      unfold diskLoop at h
      split_ifs at h
      simp only [List.length_cons] at hlen
      obtain ⟨u, hadd⟩ | ⟨u, disk, hadd, hdisk⟩ := addDisk_cases env k id node s
      · rw [hadd] at h
        have hs₁ : DisksBuilt { s with useFakeoff := u } :=
          ⟨hs.nodup, hs.allocated, hs.disks, hs.service⟩
        obtain ⟨hb, hc, hl⟩ := ih h hs₁ hid (by show s.diskHead.length + _ < _; omega)
        exact ⟨hb, DiskChange.trans ⟨u, s.disks, s.nextDisk, s.diskHead, rfl⟩ hc, hl⟩
      · rw [hadd] at h
        have hs₁ := hs.concat (hdisk _ hid) u
        have hlen₁ : (s.diskHead ++ [s.nextDisk]).length = s.diskHead.length + 1 := by simp
        obtain ⟨hb, hc, hl⟩ := ih h hs₁ (by show _ = (s.diskHead ++ [s.nextDisk]).length + 1; omega)
          (by show (s.diskHead ++ [s.nextDisk]).length + _ < _; omega)
        exact ⟨hb, DiskChange.trans ⟨u, _, _, _, rfl⟩ hc, hl⟩

theorem length_nodesFrom (tagName : Text) (fuel : Nat) (node : Node) :
    (nodesFrom tagName fuel node).length ≤ fuel := by
  induction fuel generalizing node with
  | zero => simp [nodesFrom]
  | succ fuel ih =>
      cases node with
      | nil => simp [nodesFrom]
      | cons x rest => simpa [nodesFrom] using ih _

theorem length_diskNodes (doc : Document) : (diskNodes doc).length < 2 ^ 20 :=
  (length_nodesFrom _ _ _).trans_lt doc.small

/-- **The disk stage.** -/
theorem loadDisks_ok {env : LoadEnv} {doc : Document} {s s' : State}
    (h : loadDisks env doc s = .ok s') (hhead : s.diskHead = []) (hdisk : s.disk = [])
    (hcount : s.diskCount = 0) (hservice : ∀ d, (s.disks d).service = none) :
    DisksBuilt s' ∧ s'.disk = s'.diskHead ∧ s'.diskCount = s'.diskHead.length ∧
      s'.diskHead.length < 2 ^ 20 ∧
      ∃ s₁ disk diskCount maxNameSize, DiskChange s s₁ ∧
        s' = { s₁ with disk := disk, diskCount := diskCount, maxNameSize := maxNameSize } := by
  have hfree : workloadFreeDisk (workloadFreeDiskArray s) = s := by
    have harray : workloadFreeDiskArray s = s := if_pos hdisk
    rw [harray, workloadFreeDisk, hhead]
    show { s with diskHead := [] } = s
    rw [← hhead]
  unfold loadDisks at h
  rw [hfree] at h
  obtain ⟨s₁, hloop, h⟩ := load_bind_ok.mp h
  have hs : DisksBuilt s := by
    constructor <;> simp [hhead, hservice]
  obtain ⟨hb, hc, hl⟩ := diskLoop_ok hloop hs (by simp [hhead])
    (by simpa [hhead] using length_diskNodes doc)
  obtain ⟨u, ds, n, l, hs₁⟩ := id hc
  have hdisk₁ : s₁.disk = [] := by rw [hs₁]; exact hdisk
  have hcount₁ : s₁.diskCount = 0 := by rw [hs₁]; exact hcount
  have harray : workloadFreeDiskArray s₁ = s₁ := if_pos hdisk₁
  unfold workloadUpdateDiskArray at h
  simp only [harray, hcount₁, Nat.zero_add] at h
  by_cases hempty : s₁.diskHead.length = 0
  · simp only [hempty, if_true] at h
    obtain rfl := Except.ok.inj h
    have hnil := List.eq_nil_of_length_eq_zero hempty
    refine ⟨⟨hb.nodup, hb.allocated, hb.disks, hb.service⟩, hdisk₁.trans hnil.symm, hempty.symm, hl, ?_⟩
    exact ⟨s₁, s₁.disk, 0, s₁.maxNameSize, hc, rfl⟩
  · cases hok : env.diskArray with
    | false => simp [hempty, hok] at h
    | true =>
      simp only [hempty, if_false, hok, Bool.true_eq_false] at h
      obtain rfl := Except.ok.inj h
      exact ⟨⟨hb.nodup, hb.allocated, hb.disks, hb.service⟩, rfl, rfl, hl, ⟨s₁, _, _, _, hc, rfl⟩⟩

/-! ## File stage -/

/-- The chain of files built so far. -/
structure FilesBuilt (s : State) : Prop where
  nodup : s.fileHead.Nodup
  allocated : ∀ f ∈ s.fileHead, f < s.nextFile
  files : ∀ i f, s.fileHead[i]? = some f → FreshFile s.cfg i (s.files f)

/-- The fields the file loop writes. -/
def FileChange (s s' : State) : Prop :=
  ∃ files nextFile fileHead,
    s' = { s with files := files, nextFile := nextFile, fileHead := fileHead }

theorem FileChange.refl (s : State) : FileChange s s := ⟨s.files, s.nextFile, s.fileHead, rfl⟩

theorem FileChange.trans {s₁ s₂ s₃ : State} (h₁ : FileChange s₁ s₂) (h₂ : FileChange s₂ s₃) :
    FileChange s₁ s₃ := by
  obtain ⟨fs, n, l, rfl⟩ := h₁
  obtain ⟨fs', n', l', rfl⟩ := h₂
  exact ⟨fs', n', l', rfl⟩

/-- Adding a fresh file at the tail keeps the chain built. -/
theorem FilesBuilt.concat {s : State} (hs : FilesBuilt s) (file : File)
    (hfile : FreshFile s.cfg s.fileHead.length file) :
    FilesBuilt { s with
      files := Function.update s.files s.nextFile file
      nextFile := s.nextFile + 1
      fileHead := s.fileHead ++ [s.nextFile] } := by
  have hnew : s.nextFile ∉ s.fileHead := fun h => Nat.lt_irrefl _ (hs.allocated _ h)
  constructor
  · show (s.fileHead ++ [s.nextFile]).Nodup
    rw [List.nodup_append_comm, List.singleton_append]
    exact List.nodup_cons.mpr ⟨hnew, hs.nodup⟩
  · show ∀ f ∈ s.fileHead ++ [s.nextFile], f < s.nextFile + 1
    intro f hf
    rcases List.mem_append.mp hf with hf | hf
    · exact Nat.lt_succ_of_lt (hs.allocated f hf)
    · rw [List.mem_singleton.mp hf]
      exact Nat.lt_succ_self _
  · intro i f hif
    show FreshFile s.cfg i (Function.update s.files s.nextFile file f)
    rcases getElem?_concat_cases hif with hif | ⟨rfl, rfl⟩
    · have hne : f ≠ s.nextFile := fun he => hnew (he ▸ List.mem_of_getElem? hif)
      rw [Function.update_of_ne hne]
      exact hs.files i f hif
    · rw [Function.update_self]
      exact hfile

/-- **The file loop** keeps the chain built; it ends early when an allocation fails. -/
theorem fileLoop_ok {env : LoadEnv} {n id : Nat} {s s' : State} (h : fileLoop env n id s = .ok s')
    (hs : FilesBuilt s) (hid : id = s.fileHead.length + 1) :
    FilesBuilt s' ∧ FileChange s s' ∧ s'.fileHead.length ≤ s.fileHead.length + n := by
  induction n generalizing id s with
  | zero =>
      obtain rfl := Except.ok.inj h
      exact ⟨hs, FileChange.refl s, Nat.le_refl _⟩
  | succ n ih =>
      unfold fileLoop at h
      split_ifs at h
      unfold workloadNewFile at h
      cases hok : env.newFile id with
      | false =>
          simp only [hok] at h
          obtain rfl := Except.ok.inj h
          exact ⟨hs, FileChange.refl s, Nat.le_add_right _ _⟩
      | true =>
          simp only [hok, if_true] at h
          have hs₁ := hs.concat
            { assignPrev := none, assignNext := none, assignDisk := none, reassignDisk := none
              created := false, insertedDb := false, index := 0, id := id
              filename := formatFilename s.cfg id
              readCount := 0, writeCount := 0, timeStamp := s.timeStamp }
            (by constructor <;> first | rfl | exact hid | rw [hid])
          have hlen : (s.fileHead ++ [s.nextFile]).length = s.fileHead.length + 1 := by simp
          obtain ⟨hb, hc, hl⟩ := ih h hs₁
            (by show _ = (s.fileHead ++ [s.nextFile]).length + 1; omega)
          refine ⟨hb, FileChange.trans ⟨_, _, _, rfl⟩ hc, hl.trans ?_⟩
          show (s.fileHead ++ [s.nextFile]).length + n ≤ _
          omega

/-- Numbering writes `m_index` only, the place in the list. -/
theorem setIndexes_eq (l : List FilePtr) (i : Nat) (s : State) :
    ∃ files, setIndexes i l s = { s with files := files } ∧
      (∀ f, ∃ index, files f = { s.files f with index := index }) ∧
      (∀ f, f ∉ l → files f = s.files f) ∧
      (l.Nodup → ∀ j f, l[j]? = some f → (files f).index = i + j) := by
  induction l generalizing i s with
  | nil => exact ⟨s.files, rfl, fun f => ⟨(s.files f).index, rfl⟩, fun _ _ => rfl, fun _ _ _ h => by simp at h⟩
  | cons g l ih =>
      obtain ⟨files, hset, hall, hout, hindex⟩ :=
        ih (i + 1) (s.modifyFile g fun file => { file with index := i })
      refine ⟨files, hset, ?_, ?_, ?_⟩
      · intro f
        obtain ⟨index, hf⟩ := hall f
        rw [hf, State.modifyFile_files]
        split_ifs with hfg
        · exact ⟨index, by rw [hfg]⟩
        · exact ⟨index, rfl⟩
      · intro f hf
        obtain ⟨hfg, hfl⟩ := not_or.mp (mt List.mem_cons.mpr hf)
        rw [hout f hfl, State.modifyFile_files, if_neg hfg]
      · intro hnd j f hj
        obtain ⟨hg, hnd⟩ := List.nodup_cons.mp hnd
        cases j with
        | zero =>
            obtain rfl : g = f := by simpa using hj
            rw [hout g hg, State.modifyFile_files, if_pos rfl]
            rfl
        | succ j =>
            have hrest := hindex hnd j f (by simpa using hj)
            omega

/-- **The file stage.** -/
theorem loadFiles_ok {env : LoadEnv} {s s' : State} (h : loadFiles env s = .ok s')
    (hhead : s.fileHead = []) (hordered : s.fileOrdered = []) (hsorted : s.fileSorted = [])
    (heven : s.fileEven = []) (hcount : s.fileCount = 0)
    (hfilecount : s.cfg.filecount ≤ defWorkloadConfigMaxFiles) :
    (∃ filecount files nextFile fileHead fileOrdered fileSorted fileEven fileCount,
      s' = { s with
        cfg := { s.cfg with filecount := filecount }
        files := files, nextFile := nextFile, fileHead := fileHead
        fileOrdered := fileOrdered, fileSorted := fileSorted, fileEven := fileEven
        fileCount := fileCount }) ∧
    FilesBuilt s' ∧ s'.fileOrdered = s'.fileHead ∧ s'.fileSorted = s'.fileHead ∧
    s'.fileEven = s'.fileHead ∧ s'.fileCount = s'.fileHead.length ∧
    s'.fileHead.length ≤ s'.cfg.filecount ∧ 0 < s'.cfg.filecount ∧
    s'.cfg.filecount ≤ defWorkloadConfigMaxFiles ∧
    ∀ i f, s'.fileHead[i]? = some f → (s'.files f).index = i := by
  have harray₀ : workloadFreeFileArray s = s := if_pos hordered
  unfold loadFiles at h
  simp only [harray₀, hhead, List.head?_nil, workloadFreeFile] at h
  obtain ⟨s₁, hloop, h⟩ := load_bind_ok.mp h
  generalize hcfg : (if s.cfg.filecount = 0 then defWorkloadConfigDefaultFiles
    else s.cfg.filecount) = filecount at hloop
  have hpos : 0 < filecount ∧ filecount ≤ defWorkloadConfigMaxFiles := by
    rw [← hcfg]
    split_ifs with h0
    · decide
    · exact ⟨Nat.pos_of_ne_zero h0, hfilecount⟩
  obtain ⟨hb, hc, hl⟩ := fileLoop_ok hloop
    (by constructor <;> simp) (by simp)
  obtain ⟨files, nextFile, fileHead, hs₁⟩ := id hc
  have hl₁ : s₁.fileHead.length ≤ filecount := by simpa [hhead] using hl
  have hcfg₁ : s₁.cfg.filecount = filecount := by rw [hs₁]
  have hordered₁ : s₁.fileOrdered = [] := by rw [hs₁]; exact hordered
  have hcount₁ : s₁.fileCount = 0 := by rw [hs₁]; exact hcount
  unfold workloadUpdateFileArray at h
  by_cases hempty : s₁.fileHead = []
  · have harray : workloadFreeFileArray s₁ = s₁ := if_pos hordered₁
    simp only [hempty, if_true, harray] at h
    obtain rfl := Except.ok.inj h
    refine ⟨⟨filecount, files, nextFile, fileHead, _, _, _, _, hs₁⟩, hb, hordered₁.trans hempty.symm,
      ?_, ?_, ?_, hcfg₁ ▸ hl₁, hcfg₁ ▸ hpos.1, hcfg₁ ▸ hpos.2, ?_⟩
    · rw [hempty, hs₁]
      exact hsorted
    · rw [hempty, hs₁]
      exact heven
    · rw [hempty, hcount₁]
      rfl
    · intro i f hif
      simp [hempty] at hif
  · have hneq : s₁.fileCount ≠ s₁.fileHead.length := by
      rw [hcount₁]
      exact fun he => hempty (List.eq_nil_of_length_eq_zero he.symm)
    cases hok : env.fileArray with
    | false => simp [hempty, hneq, hok] at h
    | true =>
        simp only [hempty, if_false, hok, Bool.true_eq_false, and_false] at h
        obtain rfl := Except.ok.inj h
        obtain ⟨files', hset, hall, -, hindex⟩ := setIndexes_eq s₁.fileHead 0
          { s₁ with
            fileOrdered := s₁.fileHead, fileSorted := s₁.fileHead, fileEven := s₁.fileHead
            fileCount := s₁.fileHead.length }
        rw [hset]
        refine ⟨⟨filecount, files', nextFile, fileHead, s₁.fileHead, s₁.fileHead, s₁.fileHead,
            s₁.fileHead.length, ?_⟩,
          ⟨hb.nodup, hb.allocated, ?_⟩, rfl, rfl, rfl, rfl, hcfg₁ ▸ hl₁, hcfg₁ ▸ hpos.1,
          hcfg₁ ▸ hpos.2, ?_⟩
        · rw [hs₁]
        · intro i f hif
          obtain ⟨index, hf⟩ := hall f
          show FreshFile s₁.cfg i (files' f)
          have hfresh := hb.files i f hif
          rw [hf]
          exact ⟨hfresh.id, hfresh.filename, hfresh.assignNext, hfresh.assignDisk,
            hfresh.reassignDisk, hfresh.created, hfresh.insertedDb, hfresh.readCount, hfresh.writeCount⟩
        · intro i f hif
          simpa using hindex hb.nodup i f hif

/-! ## The objects of a configuration -/

/-- The operation stage fills the configuration; the number of files is bounded. -/
theorem parseOperation_eq (doc : Document) (node : Node) (s : State) :
    ∃ pause cfg, parseOperation doc node s = { s with pause := pause, cfg := cfg } ∧
      cfg.filecount ≤ defWorkloadConfigMaxFiles :=
  ⟨_, _, rfl, Nat.min_le_right _ _⟩

/-- What building the objects leaves alone. -/
structure LoadFrame (s s' : State) : Prop where
  opt : s'.opt = s.opt
  xml : s'.xml = s.xml
  timeStamp : s'.timeStamp = s.timeStamp
  relocate : s'.relocate = s.relocate
  sampled : s'.sampled = s.sampled
  fs : s'.fs = s.fs

/-- **The stages that build the objects** lead from an idle workload to a prepared one. -/
theorem loadObjects_ok {env : LoadEnv} {doc : Document} {s s' : State} (hs : Idle s)
    (h : loadObjects env doc s = .ok s') : Prepared s' ∧ LoadFrame s s' := by
  unfold loadObjects at h
  obtain ⟨s₁, hopen, h⟩ := load_bind_ok.mp h
  obtain ⟨s₂, hdump, h⟩ := load_bind_ok.mp h
  obtain ⟨s₃, hreset, h⟩ := load_bind_ok.mp h
  obtain ⟨s₄, hdisks, hfiles⟩ := load_bind_ok.mp h
  obtain ⟨db₁, rfl⟩ := openMeta_ok hopen
  obtain rfl := (dumpMeta_ok hdump).1
  obtain ⟨db₃, rfl⟩ := resetMeta_ok hreset
  obtain ⟨pause, cfg, hop, hle⟩ := parseOperation_eq doc (configNode doc ["meta".toList])
    ((s.setDb db₁).setDb db₃)
  rw [hop] at hdisks
  obtain ⟨hb, hdisk, hcount, hlen, s₅, disk, diskCount, m, ⟨u, ds, n, l, rfl⟩, rfl⟩ :=
    loadDisks_ok hdisks hs.diskHead hs.disk hs.diskCount hs.service
  obtain ⟨⟨fc, fs, nf, fh, fo, fso, fe, fcnt, rfl⟩, hbf, ho, hso, he, hc, hle', hpos, hmax, hidx⟩ :=
    loadFiles_ok hfiles hs.fileHead hs.fileOrdered hs.fileSorted hs.fileEven hs.fileCount hle
  refine ⟨?_, ⟨rfl, rfl, rfl, rfl, rfl, rfl⟩⟩
  constructor
  · exact hdisk
  · exact hcount
  · exact hlen
  · exact hb.nodup
  · exact hbf.nodup
  · exact ho
  · exact hso
  · exact he
  · exact hc
  · exact hle'
  · exact hpos
  · exact hmax
  · exact hb.disks
  · exact hbf.files
  · exact hidx
  · exact hs.readCount
  · exact hs.writeCount
  · exact hs.nextFileIndex
  · exact hb.service

end Workload
