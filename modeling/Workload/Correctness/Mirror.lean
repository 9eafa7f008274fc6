import Workload.Correctness.Failures
import Workload.Correctness.Transfers
import Workload.Lib.Mirror

/-!
# `Correctness.Mirror` — the meta database against the memory

Every call pushes the rows of the objects it changed, but for one: a relocation changes two disks, and pushes
only the one the file moved to.

* **`rows_current`** — with a database that executes everything, in a run without relocations every row shows
  what is in memory; and the first relocation leaves the row of the old disk behind.
-/

namespace Workload

open State Trace Mirror

variable {s s' s₁ : State} {f : FilePtr} {d home : DiskPtr} {db : Db}

/-! ## Figures -/

/-- What a row shows: the files or the disk id, the reads, the writes, and their sum. -/
abbrev Figures := Nat × Nat × Nat × Nat

def FileRow.figures (row : FileRow) : Figures := (row.diskId, row.read, row.write, row.access)

def DiskRow.figures (row : DiskRow) : Figures := (row.files, row.read, row.write, row.access)

/-- What the row of a file is to show. -/
def State.fileFigures (s : State) (f : FilePtr) : Figures := (fileRow s (s.files f)).figures

/-- What the row of a disk is to show. -/
def State.diskFigures (s : State) (d : DiskPtr) : Figures :=
  ((s.disks d).assignFileCount, (s.disks d).readCount, (s.disks d).writeCount,
    add64 (s.disks d).readCount (s.disks d).writeCount)

/-- Every row belongs to an object of the configuration, and shows its figures. -/
structure Mirrored (s : State) : Prop where
  file : ∀ db, s.db = some db → ∀ id row, db.tables.file id = some row →
    ∃ f ∈ s.fileHead, (s.files f).id = id ∧ row.figures = s.fileFigures f
  disk : ∀ db, s.db = some db → ∀ id row, db.tables.disk id = some row →
    ∃ d ∈ s.diskHead, (s.disks d).id = id ∧ row.figures = s.diskFigures d

theorem fileFigures_eq (s : State) (f : FilePtr) :
    s.fileFigures f = (((s.placement.home f).map s.roster.diskId).getD 0, s.counters.fileRead f,
      s.counters.fileWrite f, add64 (s.counters.fileRead f) (s.counters.fileWrite f)) := by
  have hhome : s.placement.home f = (s.files f).assignDisk := rfl
  unfold State.fileFigures fileRow FileRow.figures
  rw [hhome]
  cases (s.files f).assignDisk <;> rfl

theorem diskFigures_eq (s : State) (d : DiskPtr) :
    s.diskFigures d = (s.placement.count d, s.counters.diskRead d, s.counters.diskWrite d,
      add64 (s.counters.diskRead d) (s.counters.diskWrite d)) := rfl

/-! ## A database that executes everything -/

def Db.Reliable (db : Db) : Prop := ∀ n, db.formatted n = true ∧ db.backend.Accepts n = true

theorem Db.Reliable.after (h : db.Reliable) (stmt : Stmt) : (db.after stmt).Reliable := by
  intro n
  rw [Db.after_formatted, Db.after_backend]
  exact h n

theorem Db.Reliable.tables (h : db.Reliable) (stmt : Stmt) :
    (db.after stmt).tables = stmt.apply db.tables :=
  Db.after_tables (h _).1 (h _).2

theorem Db.Reliable.noticed (h : db.Reliable) (n : Nat) : db.noticed n = false := by
  rw [Bool.eq_false_iff]
  intro hnoticed
  have hfails := Db.fails_of_noticed hnoticed
  rw [Db.fails, (h n).1, (h n).2] at hfails
  exact absurd hfails (by decide)

theorem querySet_reliable (hdb : s.db = some db) (h : db.Reliable) (stmt : Stmt) :
    (querySet s stmt).1 ≠ -1 ∧ (querySet s stmt).2 = s.setDb (some (db.after stmt)) := by
  constructor
  · intro hfailed
    have hfst : (querySet s stmt).1 = (workloadDbQuerySet db stmt).1 := by
      unfold querySet
      rw [hdb]
    rw [hfst, workloadDbQuerySet_failed, h.noticed] at hfailed
    exact nomatch hfailed
  · rw [querySet_snd, hdb]
    rfl

/-- The tables, by what the rows show. -/
def Db.fileTable (db : Db) (id : Nat) : Option Figures := (db.tables.file id).map FileRow.figures

def Db.diskTable (db : Db) (id : Nat) : Option Figures := (db.tables.disk id).map DiskRow.figures

theorem orFail_ok {x : Int × State} {next : State → Int × State} (hx : x.1 ≠ -1) :
    orFail x next = next x.2 := if_neg hx

/-- The insertion: behind it the row is there. -/
theorem insertDbFile_reliable (hdb : s.db = some db) (h : db.Reliable)
    (hrow : (s.files f).insertedDb = true → (db.tables.file (s.files f).id).isSome = true) :
    ∃ db', (insertDbFile s f).1 ≠ -1 ∧ (insertDbFile s f).2.db = some db' ∧ db'.Reliable ∧
      (db'.tables.file (s.files f).id).isSome = true ∧
      (∀ id ≠ (s.files f).id, db'.tables.file id = db.tables.file id) ∧ db'.tables.disk = db.tables.disk ∧
      (insertDbFile s f).2.ledger.inFile = Function.update s.ledger.inFile f true ∧
      (insertDbFile s f).2.ledger.inDisk = s.ledger.inDisk := by
  unfold insertDbFile
  split_ifs with hin
  · refine ⟨db, nofun, hdb, h, hrow hin, fun _ _ => rfl, rfl, ?_, rfl⟩
    exact (Function.update_eq_self_iff.mpr hin.symm).symm
  · obtain ⟨hne, hsnd⟩ := querySet_reliable hdb h (.insertFile (s.files f).id)
    rw [orFail_ok hne, hsnd]
    refine ⟨db.after (.insertFile (s.files f).id), nofun, rfl, h.after _, ?_, ?_, ?_, ?_, rfl⟩
    · rw [h.tables]
      show (Function.update db.tables.file (s.files f).id _ (s.files f).id).isSome = true
      rw [Function.update_self]
      rfl
    · intro id hid
      rw [h.tables]
      exact Function.update_of_ne hid _ _
    · rw [h.tables]
      rfl
    · exact Function.comp_update File.insertedDb s.files f _

/-- The push of a file: its row shows the figures. -/
theorem updateDbFile_reliable (hdb : s.db = some db) (h : db.Reliable)
    (hrow : (s.files f).insertedDb = true → (db.tables.file (s.files f).id).isSome = true) :
    ∃ db', (workloadUpdateDbFile s f).1 ≠ -1 ∧ (workloadUpdateDbFile s f).2.db = some db' ∧ db'.Reliable ∧
      db'.fileTable = Function.update db.fileTable (s.files f).id (some (s.fileFigures f)) ∧
      db'.diskTable = db.diskTable ∧
      (workloadUpdateDbFile s f).2.ledger.inFile = Function.update s.ledger.inFile f true ∧
      (workloadUpdateDbFile s f).2.ledger.inDisk = s.ledger.inDisk := by
  obtain ⟨db₁, hne₁, hdb₁, h₁, hsome, hothers, hdisk, hinFile, hinDisk⟩ := insertDbFile_reliable hdb h hrow
  have hframe : Frame s (insertDbFile s f).2 := by
    unfold insertDbFile
    split_ifs
    · exact Frame.refl s
    · exact orFail_rel Frame Frame.trans (querySet_frame s _) fun s => by constructor <;> simp
  have hid : ((insertDbFile s f).2.files f).id = (s.files f).id :=
    congrArg (fun r : Roster => r.fileId f) hframe.roster
  have hfigures : (insertDbFile s f).2.fileFigures f = s.fileFigures f := by
    rw [fileFigures_eq, fileFigures_eq, hframe.roster, hframe.placement, hframe.counters]
  unfold workloadUpdateDbFile
  rw [orFail_ok hne₁]
  generalize (insertDbFile s f).2 = s₁ at *
  obtain ⟨hne, hsnd⟩ := querySet_reliable hdb₁ h₁ (.updateFile (s₁.files f).id (fileRow s₁ (s₁.files f)))
  rw [orFail_ok hne, hsnd]
  refine ⟨db₁.after _, nofun, rfl, h₁.after _, ?_, ?_, hinFile, hinDisk⟩
  · unfold Db.fileTable
    rw [h₁.tables, ← hfigures, hid]
    exact map_update_row hsome hothers fun _ => rfl
  · funext id
    rw [Db.diskTable, Db.diskTable, h₁.tables, ← hdisk]
    rfl

/-- The insertion: behind it the row is there. -/
theorem insertDbDisk_reliable (hdb : s.db = some db) (h : db.Reliable)
    (hrow : (s.disks d).insertedDb = true → (db.tables.disk (s.disks d).id).isSome = true) :
    ∃ db', (insertDbDisk s d).1 ≠ -1 ∧ (insertDbDisk s d).2.db = some db' ∧ db'.Reliable ∧
      (db'.tables.disk (s.disks d).id).isSome = true ∧
      (∀ id ≠ (s.disks d).id, db'.tables.disk id = db.tables.disk id) ∧ db'.tables.file = db.tables.file ∧
      (insertDbDisk s d).2.ledger.inDisk = Function.update s.ledger.inDisk d true ∧
      (insertDbDisk s d).2.ledger.inFile = s.ledger.inFile := by
  unfold insertDbDisk
  split_ifs with hin
  · refine ⟨db, nofun, hdb, h, hrow hin, fun _ _ => rfl, rfl, ?_, rfl⟩
    exact (Function.update_eq_self_iff.mpr hin.symm).symm
  · obtain ⟨hne, hsnd⟩ := querySet_reliable hdb h
      (.insertDisk (s.disks d).id (s.disks d).name (s.disks d).path)
    rw [orFail_ok hne, hsnd]
    refine ⟨db.after (.insertDisk (s.disks d).id (s.disks d).name (s.disks d).path), nofun, rfl, h.after _,
      ?_, ?_, ?_, ?_, rfl⟩
    · rw [h.tables]
      show (Function.update db.tables.disk (s.disks d).id _ (s.disks d).id).isSome = true
      rw [Function.update_self]
      rfl
    · intro id hid
      rw [h.tables]
      exact Function.update_of_ne hid _ _
    · rw [h.tables]
      rfl
    · exact Function.comp_update Disk.insertedDb s.disks d _

/-- The push of a disk: its row shows the figures. -/
theorem updateDbDisk_reliable (hdb : s.db = some db) (h : db.Reliable)
    (hrow : (s.disks d).insertedDb = true → (db.tables.disk (s.disks d).id).isSome = true) :
    ∃ db', (workloadUpdateDbDisk s d).1 ≠ -1 ∧ (workloadUpdateDbDisk s d).2.db = some db' ∧ db'.Reliable ∧
      db'.fileTable = db.fileTable ∧
      db'.diskTable = Function.update db.diskTable (s.disks d).id (some (s.diskFigures d)) ∧
      (workloadUpdateDbDisk s d).2.ledger.inFile = s.ledger.inFile ∧
      (workloadUpdateDbDisk s d).2.ledger.inDisk = Function.update s.ledger.inDisk d true := by
  obtain ⟨db₁, hne₁, hdb₁, h₁, hsome, hothers, hfile, hinDisk, hinFile⟩ := insertDbDisk_reliable hdb h hrow
  have hframe : Frame s (insertDbDisk s d).2 := by
    unfold insertDbDisk
    split_ifs
    · exact Frame.refl s
    · exact orFail_rel Frame Frame.trans (querySet_frame s _) fun s => by constructor <;> simp
  have hid : ((insertDbDisk s d).2.disks d).id = (s.disks d).id :=
    congrArg (fun r : Roster => r.diskId d) hframe.roster
  have hfigures : (insertDbDisk s d).2.diskFigures d = s.diskFigures d := by
    rw [diskFigures_eq, diskFigures_eq, hframe.placement, hframe.counters]
  unfold workloadUpdateDbDisk
  rw [orFail_ok hne₁]
  generalize (insertDbDisk s d).2 = s₁ at *
  obtain ⟨hne, hsnd⟩ := querySet_reliable hdb₁ h₁ (diskUpdate (s₁.disks d))
  rw [orFail_ok hne, hsnd]
  refine ⟨db₁.after _, nofun, rfl, h₁.after _, ?_, ?_, hinFile, hinDisk⟩
  · funext id
    rw [Db.fileTable, Db.fileTable, h₁.tables, ← hfile]
    rfl
  · unfold Db.diskTable diskUpdate
    rw [h₁.tables, ← hfigures, hid]
    exact map_update_row hsome hothers fun _ => rfl

/-! ## What the rows show -/

/-- The database executes everything, and its rows show `files` and `disks`. -/
def Shown (s : State) (files : FilePtr → Figures) (disks : DiskPtr → Figures) : Prop :=
  ∃ db, s.db = some db ∧ db.Reliable ∧
    Reflects s.fileHead s.roster.fileId files s.ledger.inFile db.fileTable ∧
    Reflects s.diskHead s.roster.diskId disks s.ledger.inDisk db.diskTable

variable {files files' : FilePtr → Figures} {disks disks' : DiskPtr → Figures}

theorem Shown.congr (h : Shown s files disks) (hfiles : ∀ f ∈ s.fileHead, files' f = files f)
    (hdisks : ∀ d ∈ s.diskHead, disks' d = disks d) : Shown s files' disks' := by
  obtain ⟨db, hdb, hrel, hfile, hdisk⟩ := h
  exact ⟨db, hdb, hrel, hfile.congr hfiles, hdisk.congr hdisks⟩

/-- A change of the memory changes no row. -/
theorem Shown.quiet (h : Shown s files disks) (hroster : s'.roster = s.roster)
    (hledger : s'.ledger = s.ledger) : Shown s' files disks := by
  obtain ⟨db, hdb, hrel, hfile, hdisk⟩ := h
  have hfiles : s'.fileHead = s.fileHead := congrArg Roster.fileHead hroster
  have hdisks : s'.diskHead = s.diskHead := congrArg Roster.diskHead hroster
  refine ⟨db, (congrArg Ledger.db hledger).trans hdb, hrel, ?_, ?_⟩
  · rw [hfiles, hroster, hledger]
    exact hfile
  · rw [hdisks, hroster, hledger]
    exact hdisk

/-- Numbers along a list tell its entries apart. -/
theorem inj_of_positions {α : Type} {l : List α} {id : α → Nat}
    (h : ∀ (i : Nat) x, l[i]? = some x → id x = i + 1) : ∀ x ∈ l, ∀ y ∈ l, id x = id y → x = y := by
  intro x hx y hy hid
  obtain ⟨i, hi⟩ := List.mem_iff_getElem?.mp hx
  obtain ⟨j, hj⟩ := List.mem_iff_getElem?.mp hy
  rw [h i x hi, h j y hj] at hid
  obtain rfl := Nat.succ.inj hid
  exact Option.some.inj (hi.symm.trans hj)

theorem Roster.Built.fileId_inj {r : Roster} (hb : r.Built) :
    ∀ f ∈ r.fileHead, ∀ g ∈ r.fileHead, r.fileId f = r.fileId g → f = g := inj_of_positions hb.fileId

theorem Roster.Built.diskId_inj {r : Roster} (hb : r.Built) :
    ∀ d ∈ r.diskHead, ∀ e ∈ r.diskHead, r.diskId d = r.diskId e → d = e := inj_of_positions hb.diskId

theorem Shown.pushFile (h : Shown s files disks) (hb : s.roster.Built) (hf : f ∈ s.fileHead) :
    (workloadUpdateDbFile s f).1 ≠ -1 ∧
      Shown (workloadUpdateDbFile s f).2 (Function.update files f (s.fileFigures f)) disks := by
  obtain ⟨db, hdb, hrel, hfile, hdisk⟩ := h
  have hrow : (s.files f).insertedDb = true → (db.tables.file (s.files f).id).isSome = true := by
    intro hin
    have hsome := (hfile.inserted f hf).symm.trans hin
    rwa [Db.fileTable, Option.isSome_map] at hsome
  obtain ⟨db', hne, hdb', hrel', hfileTable, hdiskTable, hinFile, hinDisk⟩ :=
    updateDbFile_reliable hdb hrel hrow
  have hframe := workloadUpdateDbFile_frame s f
  have hfiles : (workloadUpdateDbFile s f).2.fileHead = s.fileHead := congrArg Roster.fileHead hframe.roster
  have hdisks : (workloadUpdateDbFile s f).2.diskHead = s.diskHead := congrArg Roster.diskHead hframe.roster
  refine ⟨hne, db', hdb', hrel', ?_, ?_⟩
  · rw [hfiles, hframe.roster, hinFile, hfileTable]
    exact hfile.push hb.fileId_inj hf _
  · rw [hdisks, hframe.roster, hinDisk, hdiskTable]
    exact hdisk

theorem Shown.pushDisk (h : Shown s files disks) (hb : s.roster.Built) (hd : d ∈ s.diskHead) :
    (workloadUpdateDbDisk s d).1 ≠ -1 ∧
      Shown (workloadUpdateDbDisk s d).2 files (Function.update disks d (s.diskFigures d)) := by
  obtain ⟨db, hdb, hrel, hfile, hdisk⟩ := h
  have hrow : (s.disks d).insertedDb = true → (db.tables.disk (s.disks d).id).isSome = true := by
    intro hin
    have hsome := (hdisk.inserted d hd).symm.trans hin
    rwa [Db.diskTable, Option.isSome_map] at hsome
  obtain ⟨db', hne, hdb', hrel', hfileTable, hdiskTable, hinFile, hinDisk⟩ :=
    updateDbDisk_reliable hdb hrel hrow
  have hframe := workloadUpdateDbDisk_frame s d
  have hfiles : (workloadUpdateDbDisk s d).2.fileHead = s.fileHead := congrArg Roster.fileHead hframe.roster
  have hdisks : (workloadUpdateDbDisk s d).2.diskHead = s.diskHead := congrArg Roster.diskHead hframe.roster
  refine ⟨hne, db', hdb', hrel', ?_, ?_⟩
  · rw [hfiles, hframe.roster, hinFile, hfileTable]
    exact hfile
  · rw [hdisks, hframe.roster, hinDisk, hdiskTable]
    exact hdisk.push hb.diskId_inj hd _

/-- The disks whose rows `workload_update_db` pushes. -/
def pushedDisks (s : State) (file : Option FilePtr) (disk : Option DiskPtr) : List DiskPtr :=
  (file.bind s.placement.home).toList ++ disk.toList

theorem figures_frame (hroster : s'.roster = s.roster) (hplace : s'.placement = s.placement)
    (hcounters : s'.counters = s.counters) :
    s'.fileFigures = s.fileFigures ∧ s'.diskFigures = s.diskFigures := by
  constructor
  · funext f
    rw [fileFigures_eq, fileFigures_eq, hroster, hplace, hcounters]
  · funext d
    rw [diskFigures_eq, diskFigures_eq, hplace, hcounters]

theorem update_self_ite {α β : Type} [DecidableEq α] (g h : α → β) (a : α) :
    Function.update h a (g a) = fun x => if x = a then g x else h x := by
  funext x
  by_cases hx : x = a
  · rw [hx, Function.update_self, if_pos rfl]
  · rw [Function.update_of_ne hx, if_neg hx]

/-- The disks, one after the other; once when they are the same. -/
theorem Shown.pushDisks (h : Shown s files disks) (hb : s.roster.Built) (home disk : Option DiskPtr)
    (hdisk : ∀ d ∈ home.toList ++ disk.toList, d ∈ s.diskHead) :
    Shown
      (match home, disk with
        | none, none => ((0 : Int), s)
        | none, some d => workloadUpdateDbDisk s d
        | some home, none => orFail (workloadUpdateDbDisk s home) fun s => (0, s)
        | some home, some d =>
            if home = d then workloadUpdateDbDisk s home
            else orFail (workloadUpdateDbDisk s home) fun s => workloadUpdateDbDisk s d).2 files
      fun e => if e ∈ home.toList ++ disk.toList then s.diskFigures e else disks e := by
  cases home with
  | none =>
      cases disk with
      | none => exact h.congr (fun _ _ => rfl) fun _ _ => by simp
      | some d =>
          have hpush := (h.pushDisk hb (hdisk d (by simp))).2
          rw [update_self_ite] at hpush
          exact hpush.congr (fun _ _ => rfl) fun e _ => by simp
  | some home =>
      obtain ⟨hne, hpush⟩ := h.pushDisk hb (hdisk home (by simp))
      rw [update_self_ite] at hpush
      cases disk with
      | none =>
          dsimp only
          rw [orFail_ok hne]
          exact hpush.congr (fun _ _ => rfl) fun e _ => by simp
      | some d =>
          dsimp only
          split_ifs with hsame
          · subst hsame
            exact hpush.congr (fun _ _ => rfl) fun e _ => by simp
          · have hframe := workloadUpdateDbDisk_frame s home
            have hheads : (workloadUpdateDbDisk s home).2.diskHead = s.diskHead :=
              congrArg Roster.diskHead hframe.roster
            have hd : d ∈ (workloadUpdateDbDisk s home).2.diskHead := hheads ▸ hdisk d (by simp)
            have hpush₂ := (hpush.pushDisk (hframe.roster ▸ hb) hd).2
            rw [update_self_ite, (figures_frame hframe.roster hframe.placement hframe.counters).2] at hpush₂
            rw [orFail_ok hne]
            refine hpush₂.congr (fun _ _ => rfl) fun e _ => ?_
            by_cases hd : e = d <;> by_cases hh : e = home <;> simp [hd, hh]

/-- **`workload_update_db`** brings the rows of the file and of the pushed disks up to date. -/
theorem Shown.updateDb {file : Option FilePtr} {disk : Option DiskPtr} (h : Shown s files disks)
    (hb : s.roster.Built) (hfile : ∀ f, file = some f → f ∈ s.fileHead)
    (hdisk : ∀ d ∈ pushedDisks s file disk, d ∈ s.diskHead) :
    Shown (updateDb s file disk) (fun g => if file = some g then s.fileFigures g else files g)
      (fun e => if e ∈ pushedDisks s file disk then s.diskFigures e else disks e) := by
  obtain ⟨db, hdb, -⟩ := id h
  unfold Workload.updateDb workloadUpdateDb
  rw [hdb]
  cases file with
  | none =>
      have hpush := h.pushDisks hb none disk hdisk
      cases disk <;> exact hpush.congr (fun _ _ => by simp) fun _ _ => rfl
  | some f =>
      obtain ⟨hne, hpush⟩ := h.pushFile hb (hfile f rfl)
      rw [update_self_ite] at hpush
      have hframe := workloadUpdateDbFile_frame s f
      have hhome : ((workloadUpdateDbFile s f).2.files f).assignDisk = s.placement.home f :=
        congrArg (fun p : Placement => p.home f) hframe.placement
      have hheads : (workloadUpdateDbFile s f).2.diskHead = s.diskHead :=
        congrArg Roster.diskHead hframe.roster
      have hpush₂ := hpush.pushDisks (hframe.roster ▸ hb) (s.placement.home f) disk (hheads ▸ hdisk)
      rw [(figures_frame hframe.roster hframe.placement hframe.counters).2] at hpush₂
      show Shown (orFail (workloadUpdateDbFile s f) _).2 _ _
      rw [orFail_ok hne, hhome]
      exact hpush₂.congr (fun g _ => by simp [eq_comm]) fun _ _ => rfl

/-- The rows show what is in memory. -/
def Current (s : State) : Prop := Shown s s.fileFigures s.diskFigures

/-- What changes neither figures nor ledger. -/
theorem Current.quiet (h : Current s) (hroster : s'.roster = s.roster) (hplace : s'.placement = s.placement)
    (hcounters : s'.counters = s.counters) (hledger : s'.ledger = s.ledger) : Current s' := by
  obtain ⟨hfiles, hdisks⟩ := figures_frame hroster hplace hcounters
  unfold Current
  rw [hfiles, hdisks]
  exact Shown.quiet h hroster hledger

/-- The totals are on no row. -/
theorem Current.setTotals (h : Current s) (r w : Nat) : Current (s.setTotals r w) := by
  have hfiles : (s.setTotals r w).fileFigures = s.fileFigures := rfl
  have hdisks : (s.setTotals r w).diskFigures = s.diskFigures := rfl
  unfold Current
  rw [hfiles, hdisks]
  exact Shown.quiet h rfl rfl

/-- **A change of the memory, and the push of all objects that it changed.** -/
theorem Current.push {t : State} {file : Option FilePtr} {disk : Option DiskPtr} (h : Current s)
    (hb : s.roster.Built) (ht : t = updateDb s₁ file disk) (hroster : s₁.roster = s.roster)
    (hledger : s₁.ledger = s.ledger) (hfile : ∀ f, file = some f → f ∈ s.fileHead)
    (hdisk : ∀ d ∈ pushedDisks t file disk, d ∈ s.diskHead)
    (hfiles : ∀ g, file ≠ some g → t.fileFigures g = s.fileFigures g)
    (hdisks : ∀ e, e ∉ pushedDisks t file disk → t.diskFigures e = s.diskFigures e) : Current t := by
  subst ht
  have hframe := updateDb_frame s₁ file disk
  have hfileHead : s₁.fileHead = s.fileHead := congrArg Roster.fileHead hroster
  have hdiskHead : s₁.diskHead = s.diskHead := congrArg Roster.diskHead hroster
  have hpushed : pushedDisks (updateDb s₁ file disk) file disk = pushedDisks s₁ file disk := by
    rw [pushedDisks, hframe.placement, pushedDisks]
  obtain ⟨hsameFiles, hsameDisks⟩ := figures_frame hframe.roster hframe.placement hframe.counters
  rw [hpushed] at hdisk hdisks
  have hpush := (Shown.quiet h hroster hledger).updateDb (hroster ▸ hb) (hfileHead ▸ hfile)
    (hdiskHead ▸ hdisk)
  rw [← hsameFiles, ← hsameDisks] at hpush
  refine hpush.congr (fun g _ => ?_) fun e _ => ?_
  · split_ifs with hg
    · rfl
    · exact hfiles g hg
  · split_ifs with he
    · rfl
    · exact hdisks e he

/-! ## The sections -/

theorem Current.serviceSection (h : Current s) (hb : s.roster.Built) (hf : f ∈ s.fileHead)
    (hd : d ∈ s.diskHead) (hhome : ∀ e, s.placement.home f = some e → e ∈ s.diskHead) :
    Current (serviceSection s f d) := by
  have hviews := @serviceSection_views s f d
  refine h.push hb rfl (by simp) (by simp) (fun g hg => Option.some.inj hg ▸ hf) ?_ ?_ ?_
  · intro e he
    rw [pushedDisks, hviews.2.1] at he
    rcases List.mem_append.mp he with he | he
    · exact hhome e (by simpa using he)
    · exact List.mem_singleton.mp he ▸ hd
  · intro g hg
    have hgf : g ≠ f := fun hgf => hg (congrArg some hgf.symm)
    rw [fileFigures_eq, fileFigures_eq, hviews.1, hviews.2.1, serviceSection_counters, Counters.serve]
    simp only [Function.update_of_ne hgf]
  · intro e he
    have hed : e ≠ d := by
      rintro rfl
      exact he (by simp [pushedDisks])
    rw [diskFigures_eq, diskFigures_eq, hviews.2.1, serviceSection_counters, Counters.serve]
    simp only [Function.update_of_ne hed]

theorem Current.accessSection (h : Current s) (hb : s.roster.Built) (hf : f ∈ s.fileHead)
    (hhome : ∀ e, s.placement.home f = some e → e ∈ s.diskHead) (r w : Nat) :
    Current (accessSection s f r w) := by
  have hviews := @accessSection_views s f r w
  have hcounters := hviews.2.2.1.trans (countAccess_counters (s := s) (f := f) r w)
  have hdisk : ((planReassign (sortIndex f (accessCount (countAccess s f r w) f)
      ((countAccess s f r w).files f).index (countAccess s f r w))).files f).assignDisk =
      s.placement.home f :=
    congrArg (fun p : Placement => p.home f) (show State.placement _ = s.placement by simp)
  have ht : Workload.accessSection s f r w = updateDb (planReassign (sortIndex f
      (accessCount (countAccess s f r w) f) ((countAccess s f r w).files f).index (countAccess s f r w)))
      (some f) (s.placement.home f) := by
    rw [← hdisk]
    rfl
  refine h.push hb ht (by simp) (by simp) (fun g hg => Option.some.inj hg ▸ hf) ?_ ?_ ?_
  · intro e he
    rw [pushedDisks, hviews.2.1] at he
    exact hhome e (by simpa using he)
  · intro g hg
    have hgf : g ≠ f := fun hgf => hg (congrArg some hgf.symm)
    rw [fileFigures_eq, fileFigures_eq, hviews.1, hviews.2.1, hcounters]
    simp only [Counters.access, Function.update_of_ne hgf]
  · intro e he
    rw [pushedDisks, hviews.2.1] at he
    rw [diskFigures_eq, diskFigures_eq, hviews.2.1, hcounters]
    unfold Counters.access
    cases hhome : s.placement.home f with
    | none => rfl
    | some home =>
        have heh : e ≠ home := by
          rintro rfl
          exact he (by simp [hhome])
        simp only [Function.update_of_ne heh]

/-- One disk of the reset or of the relocate switches. -/
theorem Current.clearDisk {t : State} (h : Current s) (hb : s.roster.Built) (hd : d ∈ s.diskHead)
    (ht : t = Workload.updateDb s₁ none (some d)) (hroster : s₁.roster = s.roster)
    (hledger : s₁.ledger = s.ledger) (hframe : CounterFrame s t)
    (hcounters : t.counters =
      { s.counters with
        diskRead := Function.update s.counters.diskRead d 0
        diskWrite := Function.update s.counters.diskWrite d 0 }) : Current t := by
  refine h.push hb ht hroster hledger nofun ?_ ?_ ?_
  · intro e he
    exact List.mem_singleton.mp he ▸ hd
  · intro g _
    rw [fileFigures_eq, fileFigures_eq, hframe.roster, hframe.placement, hcounters]
  · intro e he
    have hed : e ≠ d := fun hed => he (List.mem_singleton.mpr hed)
    rw [diskFigures_eq, diskFigures_eq, hframe.placement, hcounters]
    simp only [Function.update_of_ne hed]

theorem Current.resetDisk (h : Current s) (hb : s.roster.Built) (hd : d ∈ s.diskHead) :
    Current (resetDisk s d) :=
  h.clearDisk hb hd rfl (by simp) (by simp) (resetDisk_frame s d) (resetDisk_counters s d)

theorem Current.restartDisk (h : Current s) (hb : s.roster.Built) (hd : d ∈ s.diskHead) :
    Current (restartDisk s d) :=
  h.clearDisk hb hd rfl (by simp) (by simp) (restartDisk_frame s d) (restartDisk_counters s d)

/-- One file of the reset. -/
theorem Current.resetFile (h : Current s) (hb : s.roster.Built) (hf : f ∈ s.fileHead)
    (hhome : ∀ e, s.placement.home f = some e → e ∈ s.diskHead) : Current (resetFile s f) := by
  have hframe := resetFile_frame s f
  have hcounters : (Workload.resetFile s f).counters =
      { s.counters with
        fileRead := Function.update s.counters.fileRead f 0
        fileWrite := Function.update s.counters.fileWrite f 0 } := by
    unfold Workload.resetFile
    rw [updateDb_views.2.2.1, counters_modifyFile_eq]
  refine h.push hb rfl (by simp) (by simp) (fun g hg => Option.some.inj hg ▸ hf) ?_ ?_ ?_
  · intro e he
    rw [pushedDisks, hframe.placement] at he
    exact hhome e (by simpa using he)
  · intro g hg
    have hgf : g ≠ f := fun hgf => hg (congrArg some hgf.symm)
    rw [fileFigures_eq, fileFigures_eq, hframe.roster, hframe.placement, hcounters]
    simp only [Function.update_of_ne hgf]
  · intro e _
    rw [diskFigures_eq, diskFigures_eq, hframe.placement, hcounters]

/-- A loop over objects that edits no list. -/
theorem Current.rounds {ι : Type} {round : State → ι → State} {l : List ι}
    (hframe : ∀ s b, CounterFrame s (round s b))
    (hround : ∀ s' b, b ∈ l → s'.roster = s.roster → s'.placement = s.placement → Current s' →
      Current (round s' b)) (h : Current s) : Current (l.foldl round s) := by
  induction l generalizing s with
  | nil => exact h
  | cons b l ih =>
      have hfirst := hframe s b
      refine ih (fun s' c hc hroster hplace => ?_) (hround s b List.mem_cons_self rfl rfl h)
      exact hround s' c (List.mem_cons_of_mem b hc) (hroster.trans hfirst.roster)
        (hplace.trans hfirst.placement)

theorem Current.relocateSection (h : Current s) (hb : s.roster.Built) : Current (relocateSection s) := by
  refine Current.rounds restartDisk_frame (fun s' d hd hroster _ h' => ?_) h
  have hdisks : s'.diskHead = s.diskHead := congrArg Roster.diskHead hroster
  exact h'.restartDisk (hroster ▸ hb) (hdisks ▸ hd)

theorem Current.resetFileAccessCount (h : Current s) (hb : s.roster.Built)
    (hhome : ∀ f ∈ s.fileHead, ∀ e, s.placement.home f = some e → e ∈ s.diskHead) :
    Current (workloadResetFileAccessCount s) := by
  have hfiles : Current (s.fileHead.foldl Workload.resetFile s) := by
    refine Current.rounds resetFile_frame (fun s' f hf hroster hplace h' => ?_) h
    have hfileHead : s'.fileHead = s.fileHead := congrArg Roster.fileHead hroster
    have hdiskHead : s'.diskHead = s.diskHead := congrArg Roster.diskHead hroster
    refine h'.resetFile (hroster ▸ hb) (hfileHead ▸ hf) ?_
    rw [hplace, hdiskHead]
    exact hhome f hf
  have hframe := foldl_rel CounterFrame CounterFrame.refl CounterFrame.trans resetFile_frame s.fileHead s
  have hdisks : Current ((s.fileHead.foldl Workload.resetFile s).diskHead.foldl Workload.resetDisk
      (s.fileHead.foldl Workload.resetFile s)) := by
    refine Current.rounds resetDisk_frame (fun s' d hd hroster _ h' => ?_) hfiles
    have hdiskHead : s'.diskHead = (s.fileHead.foldl Workload.resetFile s).diskHead :=
      congrArg Roster.diskHead hroster
    exact h'.resetDisk (hroster ▸ hframe.roster ▸ hb) (hdiskHead ▸ hd)
  exact hdisks.setTotals _ _

/-! ## Assignments -/

/-- An assignment that takes a file from one disk to another. -/
def Moves (s : State) (f : FilePtr) (d : DiskPtr) (io : MoveIo) : Prop :=
  ∃ home, s.placement.home f = some home ∧ home ≠ d ∧ MoveOpens s f home d io

variable {io : MoveIo}

/-- The state behind the first assignment of a file. -/
def joined (s : State) (f : FilePtr) (d : DiskPtr) : State :=
  assignedSection (linkFile (s.modifyFile f fun file => { file with created := false }) f d) f d none

/-- Any other assignment is the first one of the file, or changes nothing. -/
theorem assign_stays (h : ¬ Moves s f d io) :
    (workloadAssignFileToDisk s (some f) (some d) io).2 = s ∨
      s.placement.home f = none ∧ (workloadAssignFileToDisk s (some f) (some d) io).2 = joined s f d := by
  have hhome : (s.files f).assignDisk = s.placement.home f := rfl
  unfold workloadAssignFileToDisk
  dsimp only
  rw [hhome]
  cases hold : s.placement.home f with
  | none =>
      right
      have hmove : workloadMoveAssignFile s f d io =
          (0, s.modifyFile f fun file => { file with created := false }) := by
        unfold workloadMoveAssignFile
        rw [hhome, hold]
      rw [if_neg nofun, hmove]
      exact ⟨rfl, rfl⟩
  | some home =>
      left
      split_ifs with hsame hresult
      · rfl
      · have hne : home ≠ d := fun hne => hsame (congrArg some hne)
        rw [move_refused (hhome.trans hold) fun hopens => h ⟨home, hold, hne, hopens⟩] at hresult
        exact absurd hresult (show (-1 : Int) ≠ 0 by decide)
      · have hne : home ≠ d := fun hne => hsame (congrArg some hne)
        rw [move_refused (hhome.trans hold) fun hopens => h ⟨home, hold, hne, hopens⟩]

theorem joined_views : (joined s f d).roster = s.roster ∧
    (joined s f d).placement = s.placement.link f d ∧ (joined s f d).counters = s.counters ∧
    (joined s f d).fs = s.fs := by
  have hframe := assignedSection_frame
    (s := linkFile (s.modifyFile f fun file => { file with created := false }) f d) (f := f) (d := d) none
  refine ⟨?_, ?_, ?_, ?_⟩
  · exact hframe.roster.trans (by simp)
  · refine hframe.placement.trans ?_
    rw [linkFile_placement]
    exact congrArg (fun p : Placement => p.link f d) (by simp)
  · exact hframe.counters.trans (by simp)
  · exact congrArg Contents.fs (hframe.contents.trans linkFile_views.2.2.2.2.1)

theorem Current.joined (h : Current s) (hb : s.roster.Built) (hf : f ∈ s.fileHead) (hd : d ∈ s.diskHead) :
    Current (joined s f d) := by
  obtain ⟨hroster, hplace, hcounters, -⟩ := joined_views (s := s) (f := f) (d := d)
  have hpushed : pushedDisks (Workload.joined s f d) (some f) none = [d] := by
    rw [pushedDisks, hplace]
    simp [Placement.link]
  refine h.push hb rfl (by simp) (by simp) (fun g hg => Option.some.inj hg ▸ hf) ?_ ?_ ?_
  · intro e he
    rw [hpushed] at he
    exact List.mem_singleton.mp he ▸ hd
  · intro g hg
    have hgf : g ≠ f := fun hgf => hg (congrArg some hgf.symm)
    rw [fileFigures_eq, fileFigures_eq, hroster, hplace, hcounters]
    simp only [Placement.link, Function.update_of_ne hgf]
  · intro e he
    rw [hpushed] at he
    have hed : e ≠ d := fun hed => he (List.mem_singleton.mpr hed)
    rw [diskFigures_eq, diskFigures_eq, hplace, hcounters]
    simp only [Placement.link, Function.update_of_ne hed]

/-! ## Relocation -/

theorem moves_congr (hroster : s'.roster = s.roster) (hfs : s'.fs = s.fs)
    (hhome : s'.placement.home f = s.placement.home f) : Moves s' f d io ↔ Moves s f d io := by
  have hdir : ∀ e, s'.dir e = s.dir e := congrFun (congrArg Roster.dir hroster)
  have hname : (s'.files f).filename = (s.files f).filename :=
    congrArg (fun r : Roster => r.filename f) hroster
  have hopens : ∀ home, MoveOpens s' f home d io ↔ MoveOpens s f home d io := by
    intro home
    constructor
    · rintro ⟨h₁, h₂, h₃, h₄, h₅⟩
      rw [hfs, hdir, hname] at h₃ h₅
      exact ⟨h₁, h₂, h₃, h₄, h₅⟩
    · rintro ⟨h₁, h₂, h₃, h₄, h₅⟩
      rw [← hfs, ← hdir, ← hname] at h₃ h₅
      exact ⟨h₁, h₂, h₃, h₄, h₅⟩
  unfold Moves
  simp only [hhome, hopens]

/-- A round of `workload_file_relocate` that moves nothing. -/
theorem Current.relocateFile (h : Current s) (hb : s.roster.Built) (hf : f ∈ s.fileHead)
    (hplan : ∀ d, s.plan f = some d → d ∈ s.diskHead ∧ ¬ Moves s f d io) :
    Current (relocateFile s f io) ∧ (relocateFile s f io).fs = s.fs ∧
      ∀ g ≠ f, (relocateFile s f io).placement.home g = s.placement.home g := by
  have hp : (s.files f).reassignDisk = s.plan f := rfl
  unfold Workload.relocateFile
  rw [hp]
  cases hd : s.plan f with
  | none => exact ⟨h, rfl, fun _ _ => rfl⟩
  | some d =>
      obtain ⟨hmem, hstay⟩ := hplan d hd
      dsimp only
      rcases assign_stays hstay with hsame | ⟨-, hjoin⟩
      · rw [hsame]
        exact ⟨h.quiet (by simp) (by simp) (by simp) (by simp), rfl, fun g _ => by simp⟩
      · rw [hjoin]
        obtain ⟨-, hplace, -, hfs⟩ := joined_views (s := s) (f := f) (d := d)
        refine ⟨(h.joined hb hf hmem).quiet (by simp) (by simp) (by simp) (by simp), hfs, fun g hg => ?_⟩
        rw [placement_modifyFile (by simp) (by simp) (by simp), hplace]
        exact Function.update_of_ne hg _ _

theorem Current.relocate {l : List FilePtr} {ios : FilePtr → MoveIo} (h : Current s) (hb : s.roster.Built)
    (hl : l ⊆ s.fileHead) (hnd : l.Nodup)
    (hplan : ∀ f ∈ l, ∀ d, s.plan f = some d → d ∈ s.diskHead ∧ ¬ Moves s f d (ios f)) :
    Current (l.foldl (fun s f => Workload.relocateFile s f (ios f)) s) := by
  induction l generalizing s with
  | nil => exact h
  | cons f l ih =>
      obtain ⟨hf, hl⟩ := List.cons_subset.mp hl
      obtain ⟨hfl, hnd⟩ := List.nodup_cons.mp hnd
      obtain ⟨hcurrent, hfs, hhome⟩ := h.relocateFile hb hf (hplan f List.mem_cons_self)
      have hroster : (Workload.relocateFile s f (ios f)).roster = s.roster := relocateFile_views.1
      have hplans : ∀ g ≠ f, (Workload.relocateFile s f (ios f)).plan g = s.plan g := by
        intro g hg
        rcases relocateFile_cases s f (ios f) with ⟨-, hsame⟩ | ⟨d, -, hupdate, -⟩
        · rw [hsame]
        · rw [hupdate]
          exact Function.update_of_ne hg _ _
      have hfiles : (Workload.relocateFile s f (ios f)).fileHead = s.fileHead := congrArg Roster.fileHead hroster
      have hdisks : (Workload.relocateFile s f (ios f)).diskHead = s.diskHead := congrArg Roster.diskHead hroster
      refine ih hcurrent (hroster ▸ hb) (hfiles ▸ hl) hnd fun g hg d hd => ?_
      have hgf : g ≠ f := fun hgf => hfl (hgf ▸ hg)
      rw [hplans g hgf] at hd
      rw [hdisks, moves_congr hroster hfs (hhome g hgf)]
      exact hplan g (List.mem_cons_of_mem f hg) d hd

/-! ## Runs -/

/-- The call takes a file from one disk to another. -/
def Relocates (s : State) : Op → Prop
  | .assign (some f) (some d) io => Moves s f d io
  | .relocate ios => ∃ f ∈ s.fileHead, ∃ d, s.plan f = some d ∧ Moves s f d (ios f)
  | _ => False

/-- One step of a service. -/
theorem Current.service (h : Current s) (ha : Anchored s) (d : DiskPtr) (io : ServiceIo) :
    Current (diskServiceStep s d io) := by
  have hquiet : ∀ {s'}, s'.roster = s.roster → s'.placement = s.placement → s'.counters = s.counters →
      s'.ledger = s.ledger → Current s' := h.quiet
  unfold diskServiceStep
  dsimp only
  cases hpc : (s.disks d).service with
  | none => exact h
  | some pc =>
      obtain ⟨hd, hfile⟩ := ha.service d pc hpc
      obtain ⟨seats, hseats⟩ := ha.seated
      cases pc with
      | start => dsimp only; split_ifs <;> exact hquiet (by simp) (by simp) (by simp) (by simp)
      | walk file =>
          cases file with
          | none => exact hquiet (by simp) (by simp) (by simp) (by simp)
          | some f => dsimp only; split_ifs <;> exact hquiet (by simp) (by simp) (by simp) (by simp)
      | count f =>
          have hf := hfile f rfl
          have hsection := h.serviceSection ha.built hf hd fun e he => hseats.target f hf e he
          exact hsection.quiet (by simp) (by simp) (by simp) (by simp)
      | leave => exact hquiet (by simp) (by simp) (by simp) (by simp)
      | ready => exact h
      | failed => exact h

/-- **Step lemma.** -/
theorem Current.step {op : Op} (h : Current s) (hp : Placed s) (ha : Anchored s) (hop : Configured s op)
    (hstay : ¬ Relocates s op) : Current (op.run s) := by
  have hb := hp.built
  have hhome : ∀ f ∈ s.fileHead, ∀ e, s.placement.home f = some e → e ∈ s.diskHead := by
    obtain ⟨seats, hseats⟩ := hp.seated
    exact hseats.target
  cases op with
  | load env => exact absurd hop id
  | unload io => exact absurd hop id
  | command code ios => exact absurd hop id
  | index env => exact h
  | start env =>
      obtain ⟨hroster, hplace, hcounters, -⟩ := startServices_views env s
      exact h.quiet hroster hplace hcounters ledger_startServices
  | service d io => exact h.service ha d io
  | assign file disk io =>
      cases file with
      | none => exact h
      | some f =>
          cases disk with
          | none => exact h
          | some d =>
              show Current (workloadAssignFileToDisk s (some f) (some d) io).2
              rcases assign_stays hstay with hsame | ⟨-, hjoin⟩
              · rw [hsame]
                exact h
              · rw [hjoin]
                exact h.joined hb (hop.1 f rfl) (hop.2 d rfl)
  | access file io =>
      cases file with
      | none => exact h
      | some f =>
          show Current (workloadFileAccess s (some f) io).2
          obtain ⟨-, hres | ⟨d, -, hres⟩⟩ | ⟨-, d, r, w, -, -, -, hres⟩ := workloadFileAccess_cases s f io
          · rw [hres]
            exact h
          · rw [hres]
            exact h.quiet (by simp) (by simp) (by simp) (by simp)
          · rw [hres]
            have htransfer : Current (accessTransfer s f d io).2 :=
              h.quiet (by simp) (by simp) (by simp) (by simp)
            have hviews := @accessTransfer_views s f d io
            have hfiles : (accessTransfer s f d io).2.fileHead = s.fileHead := congrArg Roster.fileHead hviews.1
            have hdisks : (accessTransfer s f d io).2.diskHead = s.diskHead := congrArg Roster.diskHead hviews.1
            have hf : f ∈ s.fileHead := hop f rfl
            refine htransfer.accessSection (hviews.1 ▸ hb) (hfiles ▸ hf) ?_ r w
            rw [hviews.2.1, hdisks]
            exact hhome f hf
  | reset => exact h.resetFileAccessCount hb hhome
  | setRelocate value =>
      have hset : Current (s.setRelocate value) := h.quiet rfl rfl rfl rfl
      exact hset.relocateSection hb
  | toggleRelocate =>
      have hset : Current (s.setRelocate !s.relocate) := h.quiet rfl rfl rfl rfl
      exact hset.relocateSection hb
  | relocate ios =>
      refine h.relocate hb (List.Subset.refl _) hb.fileHead_nodup fun f hf d hd => ?_
      exact ⟨hp.plan f hf d hd, fun hmoves => hstay ⟨f, hf, d, hd, hmoves⟩⟩
  | tick timeStamp => exact h.quiet rfl rfl rfl rfl
  | screen height => exact h.quiet (by simp [Op.run]) (by simp [Op.run]) (by simp [Op.run]) (by simp [Op.run])

/-! ## The start -/

theorem Prepared.current (hs : Prepared s) (hdb : s.db = some db) (hrel : db.Reliable)
    (htables : db.tables = Tables.empty) : Current s := by
  refine ⟨db, hdb, hrel, ?_, ?_⟩
  · refine Reflects.blank (fun id => ?_) fun f hf => ?_
    · rw [Db.fileTable, htables]
      rfl
    · obtain ⟨i, hi⟩ := List.mem_iff_getElem?.mp hf
      exact (hs.files i f hi).insertedDb
  · refine Reflects.blank (fun id => ?_) fun d hd => ?_
    · rw [Db.diskTable, htables]
      rfl
    · obtain ⟨i, hi⟩ := List.mem_iff_getElem?.mp hd
      exact (hs.disks i d hi).insertedDb

/-- Without a database there are no rows. -/
theorem BySections.closed (h : BySections s s') (hdb : s.db = none) : s'.db = none := by
  obtain ⟨secs, hrun, -⟩ := h
  have hpush : ∀ s file disk, s.ledger.db = none → (updateDb s file disk).ledger.db = none := by
    intro s file disk hnone
    unfold updateDb workloadUpdateDb
    rw [show s.db = none from hnone]
    exact hnone
  have hstep : ∀ (s : State) (sec : Section), s.ledger.db = none → True → (sec.run s).ledger.db = none :=
    fun s sec h _ => sec.ledger_rule (P := fun l => l.db = none) hpush h
  rw [hrun]
  exact exec_invariant hstep hdb (along_true s secs)

theorem inDisk_updateDb (s : State) (file : Option FilePtr) (disk : Option DiskPtr)
    (h : s.ledger.inDisk d = true) : (updateDb s file disk).ledger.inDisk d = true := by
  refine updateDb_rel (R := fun s s' => s.ledger.inDisk d = true → s'.ledger.inDisk d = true) (fun _ h => h)
    (fun h₁ h₂ h => h₂ (h₁ h)) (fun s stmt h => ?_) (fun _ _ h => h) (fun s e h => ?_) s file disk h
  · rw [ledger_querySet]
    exact h
  · show (Function.update s.disks e _ d).insertedDb = true
    by_cases hde : d = e
    · rw [hde, Function.update_self]
    · rw [Function.update_of_ne hde]
      exact h

/-! ### Rows that lag behind -/

/-- No disk has more files than its row shows: only what leaves a disk is not pushed. -/
def Ahead (s : State) : Prop :=
  ∃ files disks, Shown s files disks ∧ ∀ e ∈ s.diskHead, s.placement.count e ≤ (disks e).1

theorem Ahead.quiet (h : Ahead s) (hroster : s'.roster = s.roster) (hplace : s'.placement = s.placement)
    (hledger : s'.ledger = s.ledger) : Ahead s' := by
  obtain ⟨files, disks, hshown, hle⟩ := h
  have hdisks : s'.diskHead = s.diskHead := congrArg Roster.diskHead hroster
  refine ⟨files, disks, hshown.quiet hroster hledger, ?_⟩
  rw [hdisks, hplace]
  exact hle

/-- A file is on its disk, so that the disk can lose it. -/
theorem Placed.count_pos (h : Placed s) (hf : f ∈ s.fileHead) (hhome : s.placement.home f = some home) :
    0 < s.placement.count home ∧ s.placement.count home < 2 ^ 64 := by
  obtain ⟨seats, hseats⟩ := h.seated
  have hmem := hseats.target f hf home hhome
  rw [hseats.count home hmem]
  exact ⟨List.length_pos_of_mem ((hseats.home home hmem f hf).mpr hhome),
    (hseats.length_le hmem).trans_lt h.built.fileHead_lt⟩

theorem Placement.move_count (p : Placement) {e : DiskPtr} (hother : p.home f ≠ some d) (he : e ≠ d) :
    (p.move f d).count e = if p.home f = some e then sub64 (p.count e) 1 else p.count e := by
  rw [Placement.move, if_neg hother]
  cases hhome : p.home f with
  | none => exact Function.update_of_ne he _ _
  | some old =>
      show Function.update (Function.update p.count old _) d _ e = _
      rw [Function.update_of_ne he, Function.update_apply]
      simp only [Option.some_inj, eq_comm]
      split_ifs with heq
      · rw [heq]
      · rfl

/-- **A move pushes the disk the file is on now**, and no other. -/
theorem Shown.moved (h : Shown s files disks) (hb : s.roster.Built) (hf : f ∈ s.fileHead) (hd : d ∈ s.diskHead)
    (hother : s.placement.home f ≠ some d) (hresult : (workloadMoveAssignFile s f d io).1 = 0) :
    (workloadAssignFileToDisk s (some f) (some d) io).2.placement = s.placement.move f d ∧
      (∀ e, s.ledger.inDisk e = true →
        (workloadAssignFileToDisk s (some f) (some d) io).2.ledger.inDisk e = true) ∧
      ∃ files', Shown (workloadAssignFileToDisk s (some f) (some d) io).2 files' fun e =>
        if e = d then (workloadAssignFileToDisk s (some f) (some d) io).2.diskFigures e else disks e := by
  have hassign : (s.files f).assignDisk = s.placement.home f := rfl
  have hplace : (workloadAssignFileToDisk s (some f) (some d) io).2.placement = s.placement.move f d := by
    rcases assign_placement s f d io with ⟨hfail, -⟩ | ⟨-, hplace⟩
    · unfold workloadAssignFileToDisk at hfail
      dsimp only at hfail
      rw [hassign, if_neg hother, if_pos hresult, hresult] at hfail
      exact nomatch hfail
    · exact hplace
  -- the state in front of the push
  obtain ⟨s₁, ht, hroster, hledger⟩ : ∃ s₁,
      (workloadAssignFileToDisk s (some f) (some d) io).2 = Workload.updateDb s₁ (some f) none ∧
        s₁.roster = s.roster ∧ s₁.ledger = s.ledger := by
    unfold workloadAssignFileToDisk
    dsimp only
    rw [hassign, if_neg hother, if_pos hresult]
    cases s.placement.home f <;> exact ⟨_, rfl, by simp, by simp⟩
  rw [ht] at hplace ⊢
  have hframe := updateDb_frame s₁ (some f) none
  have hpushed : pushedDisks s₁ (some f) none = [d] := by
    rw [pushedDisks, ← hframe.placement, hplace]
    simp [Placement.move_home]
  have hfileHead : s₁.fileHead = s.fileHead := congrArg Roster.fileHead hroster
  have hdiskHead : s₁.diskHead = s.diskHead := congrArg Roster.diskHead hroster
  have hfiles : ∀ g, some f = some g → g ∈ s₁.fileHead := fun g hg => hfileHead ▸ Option.some.inj hg ▸ hf
  have hdisks : ∀ e ∈ pushedDisks s₁ (some f) none, e ∈ s₁.diskHead := by
    rw [hpushed]
    exact fun e he => hdiskHead ▸ List.mem_singleton.mp he ▸ hd
  have hshown := (h.quiet hroster hledger).updateDb (hroster ▸ hb) hfiles hdisks
  rw [hpushed, ← (figures_frame hframe.roster hframe.placement hframe.counters).2] at hshown
  refine ⟨hplace, fun e he => inDisk_updateDb s₁ (some f) none (hledger ▸ he), _,
    hshown.congr (fun _ _ => rfl) fun e _ => ?_⟩
  simp only [List.mem_singleton]

theorem Ahead.assign (h : Ahead s) (hp : Placed s) (hf : f ∈ s.fileHead) (hd : d ∈ s.diskHead) (io : MoveIo) :
    Ahead (workloadAssignFileToDisk s (some f) (some d) io).2 := by
  have hassign : (s.files f).assignDisk = s.placement.home f := rfl
  have hviews := @workloadAssignFileToDisk_views s (some f) (some d) io
  by_cases hother : s.placement.home f = some d
  · unfold workloadAssignFileToDisk
    dsimp only
    rw [hassign, if_pos hother]
    exact h
  by_cases hresult : (workloadMoveAssignFile s f d io).1 = 0
  · obtain ⟨files, disks, hshown, hle⟩ := h
    obtain ⟨hplace, -, files', hshown'⟩ := hshown.moved hp.built hf hd hother hresult
    have hheads : (workloadAssignFileToDisk s (some f) (some d) io).2.diskHead = s.diskHead :=
      congrArg Roster.diskHead hviews.1
    refine ⟨files', _, hshown', fun e he => ?_⟩
    by_cases hed : e = d
    · rw [if_pos hed]
      exact Nat.le_refl _
    · rw [if_neg hed, hplace, Placement.move_count s.placement hother hed]
      refine le_trans ?_ (hle e (hheads ▸ he))
      split_ifs with hhome
      · obtain ⟨hpos, hlt⟩ := hp.count_pos hf hhome
        rw [sub64_of_le hpos hlt]
        exact Nat.sub_le _ 1
      · exact Nat.le_refl _
  · have hplace : (workloadMoveAssignFile s f d io).2.placement = s.placement := by
      rcases move_placement s f d io with ⟨-, hplace⟩ | ⟨hok, -⟩
      · exact hplace
      · exact absurd hok hresult
    unfold workloadAssignFileToDisk
    dsimp only
    rw [hassign, if_neg hother, if_neg hresult]
    exact h.quiet (by simp) hplace (by simp)

theorem Ahead.relocateFile (h : Ahead s) (hp : Placed s) (hf : f ∈ s.fileHead) (io : MoveIo) :
    Ahead (relocateFile s f io) := by
  have hplan : (s.files f).reassignDisk = s.plan f := rfl
  unfold Workload.relocateFile
  rw [hplan]
  cases hd : s.plan f with
  | none => exact h
  | some d => exact (h.assign hp hf (hp.plan f hf d hd) io).quiet (by simp) (by simp) (by simp)

theorem Ahead.relocate {l : List FilePtr} (ios : FilePtr → MoveIo) (h : Ahead s) (hp : Placed s)
    (hl : l ⊆ s.fileHead) :
    Ahead (l.foldl (fun s f => Workload.relocateFile s f (ios f)) s) := by
  induction l generalizing s with
  | nil => exact h
  | cons f l ih =>
      obtain ⟨hf, hl⟩ := List.cons_subset.mp hl
      have hfiles : (Workload.relocateFile s f (ios f)).fileHead = s.fileHead :=
        congrArg Roster.fileHead relocateFile_views.1
      exact ih (h.relocateFile hp hf (ios f)) (hp.relocateFile (ios f) hf).1 (hfiles ▸ hl)

/-- Only the figures and the database matter. -/
theorem Mirrored.congr (h : Mirrored s') (hroster : s'.roster = s.roster) (hplace : s'.placement = s.placement)
    (hcounters : s'.counters = s.counters) (hdb : s'.db = s.db) : Mirrored s := by
  obtain ⟨hfiles, hdisks⟩ := figures_frame hroster hplace hcounters
  have hfileHead : s'.fileHead = s.fileHead := congrArg Roster.fileHead hroster
  have hdiskHead : s'.diskHead = s.diskHead := congrArg Roster.diskHead hroster
  constructor
  · intro db hs id row hrow
    obtain ⟨f, hf, hid, hrow⟩ := h.file db (hdb.trans hs) id row hrow
    exact ⟨f, hfileHead ▸ hf, (congrArg (fun r : Roster => r.fileId f) hroster).symm.trans hid,
      hrow.trans (congrFun hfiles f)⟩
  · intro db hs id row hrow
    obtain ⟨d, hd, hid, hrow⟩ := h.disk db (hdb.trans hs) id row hrow
    exact ⟨d, hdiskHead ▸ hd, (congrArg (fun r : Roster => r.diskId d) hroster).symm.trans hid,
      hrow.trans (congrFun hdisks d)⟩

/-- The configuration is in place, and the rows show what is in memory, if there is a database. -/
structure Recorded (s : State) : Prop where
  placed : Placed s
  anchored : Anchored s
  current : s.db = none ∨ Current s

theorem Recorded.step {op : Op} (h : Recorded s) (hop : Configured s op) (hstay : ¬ Relocates s op) :
    Recorded (op.run s) :=
  ⟨(h.placed.step hop).1, h.anchored.bySections (h.placed.bySections hop),
    h.current.imp (h.placed.bySections hop).closed fun hc => hc.step h.placed h.anchored hop hstay⟩

end Workload
