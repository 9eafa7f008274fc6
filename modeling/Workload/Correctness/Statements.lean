import Workload.Lib.Quoting
import Workload.Correctness.Services
import Workload.Model.Sql

/-!
# `Correctness.Statements` — what the database reads in a statement

The formats put a string between two single quotes as it is. The database takes a single quote for the end of
a literal unless it is doubled.

* **`sql_texts_exact`** — a statement reads as one statement with the strings it was made from, exactly when
  none of them contains a single quote.
-/

namespace Workload

open Quoting

/-- The single quote of SQL. -/
def sqlQuote : Char := '\x27'

/-- Text outside of all literals. -/
def fixed (s : String) : List (Piece Char) := s.toList.map .text

/-- The text is one statement, with the literals `ls` in the places of `sk`. -/
def ReadsAsOne (t : Text) (sk : List (Option Char)) (ls : List Text) : Prop :=
  some ';' ∉ sk ∧ ReadsAs sqlQuote t sk ls

/-! ## The statements in pieces -/

def insertFilePieces (id : Text) : List (Piece Char) :=
  fixed "INSERT INTO wl_file (wl_id) VALUES (" ++ .literal id :: fixed ")"

def updateFilePieces (diskId read write access pathname id : Text) : List (Piece Char) :=
  fixed "UPDATE wl_file SET wl_disk_id=" ++ .literal diskId :: (fixed ",wl_read=" ++
    .literal read :: (fixed ",wl_write=" ++ .literal write :: (fixed ",wl_access=" ++
      .literal access :: (fixed ",wl_pathname=" ++ .literal pathname :: (fixed "WHERE wl_id=" ++
        [.literal id])))))

def insertDiskPieces (id name path : Text) : List (Piece Char) :=
  fixed "INSERT INTO wl_disk (wl_id,wl_name,wl_pathname) VALUES (" ++ .literal id :: (fixed "," ++
    .literal name :: (fixed "," ++ .literal path :: fixed ")"))

def updateDiskPieces (files read write access id : Text) : List (Piece Char) :=
  fixed "UPDATE wl_disk SET wl_files=" ++ .literal files :: (fixed ",wl_read=" ++
    .literal read :: (fixed ",wl_write=" ++ .literal write :: (fixed ",wl_access=" ++
      .literal access :: (fixed "WHERE wl_id=" ++ [.literal id]))))

/-- What the texts have outside of their literals. -/
def insertFileSkeleton : List (Option Char) := skeleton (insertFilePieces [])

def updateFileSkeleton : List (Option Char) := skeleton (updateFilePieces [] [] [] [] [] [])

def insertDiskSkeleton : List (Option Char) := skeleton (insertDiskPieces [] [] [])

def updateDiskSkeleton : List (Option Char) := skeleton (updateDiskPieces [] [] [] [] [])

/-! ## The texts are the pieces -/

theorem insertFileText_eq (file : File) :
    insertFileText file = render sqlQuote (insertFilePieces (formatUnsigned file.id)) := by
  rfl

theorem insertDiskText_eq (disk : Disk) :
    insertDiskText disk =
      render sqlQuote (insertDiskPieces (formatUnsigned disk.id) disk.name disk.path) := by
  rfl

theorem updateDiskText_eq (disk : Disk) :
    updateDiskText disk =
      render sqlQuote (updateDiskPieces (formatUnsigned disk.assignFileCount)
        (formatUnsigned disk.readCount) (formatUnsigned disk.writeCount)
        (formatUnsigned (add64 disk.readCount disk.writeCount)) (formatUnsigned disk.id)) := by
  rfl

/-- The update of a file's row up to the path name. -/
def updateFileFront (diskId read write access rest : Text) : Text :=
  "UPDATE wl_file SET wl_disk_id='".toList ++ (diskId ++ ("',wl_read='".toList ++ (read ++
    ("',wl_write='".toList ++ (write ++ ("',wl_access='".toList ++ (access ++
      ("',wl_pathname='".toList ++ rest))))))))

/-- The update of a file's row is composed from the values of `fileRow`. -/
theorem updateFileText_eq (s : State) (file : File) :
    updateFileText file (file.assignDisk.map s.disks) =
      render sqlQuote (updateFilePieces (formatUnsigned (fileRow s file).diskId)
        (formatUnsigned (fileRow s file).read) (formatUnsigned (fileRow s file).write)
        (formatUnsigned (fileRow s file).access) (fileRow s file).pathname
        (formatUnsigned file.id)) := by
  unfold fileRow
  cases file.assignDisk with
  | none => rfl
  | some d =>
      have hassoc : (s.disks d).path ++ ("/".toList ++ (file.filename ++
          ("'WHERE wl_id='".toList ++ (formatUnsigned file.id ++ "'".toList)))) =
          ((s.disks d).path ++ '/' :: file.filename) ++
            ("'WHERE wl_id='".toList ++ (formatUnsigned file.id ++ "'".toList)) := by
        rw [List.append_assoc]
        rfl
      exact congrArg (updateFileFront (formatUnsigned (s.disks d).id) (formatUnsigned file.readCount)
        (formatUnsigned file.writeCount)
        (formatUnsigned (add64 file.readCount file.writeCount))) hassoc

/-! ## How they read -/

/-- Numbers have no quotes. -/
theorem sqlQuote_not_mem_formatUnsigned (n : Nat) : sqlQuote ∉ formatUnsigned n := by
  intro h
  have hdigit := Nat.isDigit_of_mem_toDigits (by decide) (by decide) h
  exact absurd hdigit (by decide)

theorem skeleton_fixed (t : String) (ps : List (Piece Char)) :
    skeleton (fixed t ++ ps) = t.toList.map some ++ skeleton ps := by
  simp [skeleton, fixed]

theorem literals_fixed (t : String) (ps : List (Piece Char)) :
    literals (fixed t ++ ps) = literals ps := by
  simp [literals, fixed]

theorem literals_fixed_end (t : String) : literals (fixed t) = [] := by
  rw [← List.append_nil (fixed t), literals_fixed]
  rfl

/-- One statement: no semicolon outside of the literals, every literal between texts without a quote. -/
def OneStatement (sk : List (Option Char)) : Bool := sk.all (· != some ';') && spaced sqlQuote sk

theorem oneStatement_insertFile : OneStatement insertFileSkeleton = true := by decide +kernel

theorem oneStatement_updateFile : OneStatement updateFileSkeleton = true := by decide +kernel

theorem oneStatement_insertDisk : OneStatement insertDiskSkeleton = true := by decide +kernel

theorem oneStatement_updateDisk : OneStatement updateDiskSkeleton = true := by decide +kernel

/-- A statement of pieces reads as one, exactly when no literal has a quote. -/
theorem readsAsOne_render {ps : List (Piece Char)} {sk : List (Option Char)} {ls : List Text}
    (hsk : skeleton ps = sk) (hls : literals ps = ls) (hone : OneStatement sk = true) :
    ReadsAsOne (render sqlQuote ps) sk ls ↔ ∀ s ∈ ls, sqlQuote ∉ s := by
  subst hsk hls
  obtain ⟨hone, hsp⟩ := Bool.and_eq_true_iff.mp hone
  have hno : some ';' ∉ skeleton ps := by
    intro hmem
    have hne := List.all_eq_true.mp hone _ hmem
    exact absurd hne (by decide)
  rw [ReadsAsOne, readsAs_render hsp]
  exact and_iff_right hno

theorem sqlQuote_not_mem_getD {p : Option Text} :
    sqlQuote ∉ p.getD "(null)".toList ↔ ∀ t, p = some t → sqlQuote ∉ t := by
  cases p with
  | none => exact iff_of_true (by decide) nofun
  | some t => exact ⟨fun h u hu => Option.some.inj hu ▸ h, fun h => h t rfl⟩

/-- The quotes of a path name are those of the disk's path, the prefix and the suffix. -/
theorem sqlQuote_not_mem_pathname {s : State} {file : File}
    (hname : file.filename = formatFilename s.cfg file.id) :
    sqlQuote ∉ (fileRow s file).pathname ↔
      (∀ home, file.assignDisk = some home → sqlQuote ∉ (s.disks home).path) ∧
        (∀ p, s.cfg.filePrefix = some p → sqlQuote ∉ p) ∧
        ∀ p, s.cfg.fileSuffix = some p → sqlQuote ∉ p := by
  have hfile : sqlQuote ∉ file.filename ↔
      (∀ p, s.cfg.filePrefix = some p → sqlQuote ∉ p) ∧
        ∀ p, s.cfg.fileSuffix = some p → sqlQuote ∉ p := by
    rw [hname, formatFilename, ← sqlQuote_not_mem_getD, ← sqlQuote_not_mem_getD]
    simp [sqlQuote_not_mem_formatUnsigned]
  rw [← hfile]
  unfold fileRow
  cases file.assignDisk with
  | none => simp
  | some d =>
      have hslash : sqlQuote ≠ '/' := by decide
      simp [hslash]

/-- The text that inserts a disk reads as it should exactly when its strings have no quote. -/
theorem insertDiskText_reads (disk : Disk) :
    ReadsAsOne (insertDiskText disk) insertDiskSkeleton
        [formatUnsigned disk.id, disk.name, disk.path] ↔
      sqlQuote ∉ disk.name ∧ sqlQuote ∉ disk.path := by
  rw [insertDiskText_eq]
  refine (readsAsOne_render ?_ ?_ oneStatement_insertDisk).trans ?_
  · simp only [insertDiskPieces, insertDiskSkeleton, skeleton_fixed, skeleton_literal]
  · simp only [insertDiskPieces, literals_fixed, literals_literal, literals_fixed_end]
  · simp [sqlQuote_not_mem_formatUnsigned]

/-- **The texts of the statements.** Those that contain numbers only read as one statement with these numbers.
    The one that inserts a disk does so exactly when its name and its path have no single quote; the one that
    updates a file, when the path of its disk, the prefix and the suffix have none. -/
theorem sql_texts_exact (s : State) (f : FilePtr) (d : DiskPtr)
    (hname : (s.files f).filename = formatFilename s.cfg (s.files f).id) :
    ReadsAsOne (insertFileText (s.files f)) insertFileSkeleton [formatUnsigned (s.files f).id] ∧
      ReadsAsOne (updateDiskText (s.disks d)) updateDiskSkeleton
        [formatUnsigned (s.disks d).assignFileCount, formatUnsigned (s.disks d).readCount,
          formatUnsigned (s.disks d).writeCount,
          formatUnsigned (add64 (s.disks d).readCount (s.disks d).writeCount),
          formatUnsigned (s.disks d).id] ∧
      (ReadsAsOne (insertDiskText (s.disks d)) insertDiskSkeleton
          [formatUnsigned (s.disks d).id, (s.disks d).name, (s.disks d).path] ↔
        sqlQuote ∉ (s.disks d).name ∧ sqlQuote ∉ (s.disks d).path) ∧
      (ReadsAsOne (updateFileText (s.files f) ((s.files f).assignDisk.map s.disks)) updateFileSkeleton
          [formatUnsigned (fileRow s (s.files f)).diskId, formatUnsigned (fileRow s (s.files f)).read,
            formatUnsigned (fileRow s (s.files f)).write, formatUnsigned (fileRow s (s.files f)).access,
            (fileRow s (s.files f)).pathname, formatUnsigned (s.files f).id] ↔
        (∀ home, (s.files f).assignDisk = some home → sqlQuote ∉ (s.disks home).path) ∧
          (∀ p, s.cfg.filePrefix = some p → sqlQuote ∉ p) ∧
          ∀ p, s.cfg.fileSuffix = some p → sqlQuote ∉ p) := by
  have hnum := sqlQuote_not_mem_formatUnsigned
  refine ⟨?_, ?_, ?_, ?_⟩
  · rw [insertFileText_eq]
    refine (readsAsOne_render ?_ ?_ oneStatement_insertFile).mpr ?_
    · simp only [insertFilePieces, insertFileSkeleton, skeleton_fixed, skeleton_literal]
    · simp only [insertFilePieces, literals_fixed, literals_literal, literals_fixed_end]
    · simp [hnum]
  · rw [updateDiskText_eq]
    refine (readsAsOne_render ?_ ?_ oneStatement_updateDisk).mpr ?_
    · simp only [updateDiskPieces, updateDiskSkeleton, skeleton_fixed, skeleton_literal]
    · simp only [updateDiskPieces, literals_fixed, literals_literal]
      rfl
    · simp [hnum]
  · exact insertDiskText_reads (s.disks d)
  · rw [updateFileText_eq]
    refine (readsAsOne_render ?_ ?_ oneStatement_updateFile).trans ?_
    · simp only [updateFilePieces, updateFileSkeleton, skeleton_fixed, skeleton_literal]
    · simp only [updateFilePieces, literals_fixed, literals_literal]
      rfl
    · simp only [List.forall_mem_cons, hnum, not_false_eq_true, true_and, List.not_mem_nil, false_imp_iff,
        implies_true, and_true]
      exact sqlQuote_not_mem_pathname hname

/-- The first disk of the small configuration. -/
theorem sql_texts_exact_small :
    ReadsAsOne (insertDiskText (smallPrepared.disks 0)) insertDiskSkeleton
        [formatUnsigned (smallPrepared.disks 0).id, (smallPrepared.disks 0).name,
          (smallPrepared.disks 0).path] ↔
      sqlQuote ∉ (smallPrepared.disks 0).name ∧ sqlQuote ∉ (smallPrepared.disks 0).path :=
  (sql_texts_exact smallPrepared 0 0 (by decide +kernel)).2.2.1

/-- **A disk called `it's`**: its literal ends behind `it`, and the statement is another one. -/
theorem sql_text_splits :
    ¬ ∀ disk : Disk, ReadsAsOne (insertDiskText disk) insertDiskSkeleton
      [formatUnsigned disk.id, disk.name, disk.path] := by
  intro h
  have hreads := (insertDiskText_reads _).mp (h { smallPrepared.disks 0 with name := "it\x27s".toList })
  exact hreads.1 (by decide)

end Workload
