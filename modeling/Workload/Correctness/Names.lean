import Workload.Correctness.Copies
import Workload.Correctness.Numerals

/-!
# `Correctness.Names` — the names of the data files

`workload_new_file` sets aside the room for a name by the lengths of prefix and suffix, an absent one taken
for empty, and lets `sprintf` print them, an absent one as `(null)`.

**Main result.** `filename_fits`: the name fits exactly when at most one of the two is absent and the id is
short enough for the rest; different ids always have different names and paths.
-/

namespace Workload

/-- The name leaves room for its terminator in the memory set aside for it. -/
def FilenameFits (cfg : Cfg) (id : Nat) : Prop := (formatFilename cfg id).length + 1 ≤ filenameSize cfg + 1

/-- Other ids have other names, and other paths on every disk. -/
def FilenameDistinct (cfg : Cfg) (id : Nat) : Prop :=
  ∀ other, other ≠ id → formatFilename cfg other ≠ formatFilename cfg id ∧
    ∀ path, filePathname path (formatFilename cfg other) ≠ filePathname path (formatFilename cfg id)

/-- The ids whose names fit: all with prefix and suffix given, those of at most four digits with one of them
    absent, none with both absent. -/
def FilenameRoom (cfg : Cfg) (id : Nat) : Prop :=
  match cfg.filePrefix, cfg.fileSuffix with
  | some _, some _ => True
  | none, none => False
  | _, _ => id < 10 ^ 4

theorem formatFilename_injective (cfg : Cfg) : Function.Injective (formatFilename cfg) := by
  intro m n h
  exact formatUnsigned_injective (List.append_cancel_left (List.append_cancel_right h))

/-- Different ids always have different names and paths. -/
theorem filename_distinct (cfg : Cfg) (id : Nat) : FilenameDistinct cfg id := by
  intro other hne
  have hname : formatFilename cfg other ≠ formatFilename cfg id :=
    fun h => hne (formatFilename_injective cfg h)
  refine ⟨hname, fun path hpath => hname ?_⟩
  exact (List.cons.inj (List.append_cancel_left hpath)).2

/-- **The name of a data file fits** its memory, and no other file has it, exactly when its id has room. -/
theorem filename_fits (cfg : Cfg) {id : Nat} (hid : id < 2 ^ 32) :
    (FilenameFits cfg id ∧ FilenameDistinct cfg id) ↔ FilenameRoom cfg id := by
  rw [and_iff_left (filename_distinct cfg id)]
  have hten : (formatUnsigned id).length ≤ 10 := (length_formatUnsigned_le (by decide)).mpr (by omega)
  have hfour : (formatUnsigned id).length ≤ 4 ↔ id < 10 ^ 4 := length_formatUnsigned_le (by decide)
  have hnull : "(null)".toList.length = 6 := rfl
  unfold FilenameFits FilenameRoom filenameSize formatFilename
  rw [List.length_append, List.length_append]
  cases cfg.filePrefix with
  | none =>
      cases cfg.fileSuffix with
      | none =>
          have hpos := formatUnsigned_length_pos id
          simp only [workloadCheckString, Option.getD_none, List.length_nil, hnull, iff_false]
          omega
      | some suffix =>
          simp only [workloadCheckString, Option.getD_none, Option.getD_some, List.length_nil, hnull]
          rw [← hfour]
          omega
  | some pre =>
      cases cfg.fileSuffix with
      | none =>
          simp only [workloadCheckString, Option.getD_none, Option.getD_some, List.length_nil, hnull]
          rw [← hfour]
          omega
      | some suffix =>
          simp only [workloadCheckString, Option.getD_some, iff_true]
          omega

/-- Prefix and suffix are given, and the id is the largest. -/
theorem filename_fits_small :
    FilenameRoom { workloadInitConfig with filePrefix := some "data".toList, fileSuffix := some [] }
        (2 ^ 32 - 1) ∧
      FilenameFits { workloadInitConfig with filePrefix := some "data".toList, fileSuffix := some [] }
        (2 ^ 32 - 1) :=
  have hroom : FilenameRoom { workloadInitConfig with filePrefix := some "data".toList, fileSuffix := some [] }
      (2 ^ 32 - 1) := trivial
  ⟨hroom, ((filename_fits _ (by decide)).mpr hroom).1⟩

/-- Without prefix and suffix the shortest name is two bytes too long. -/
theorem filename_overflows :
    (formatFilename workloadInitConfig 1).length + 1 = 14 ∧ filenameSize workloadInitConfig + 1 = 11 ∧
      ¬ FilenameFits workloadInitConfig 1 := by
  unfold FilenameFits
  decide +kernel

end Workload
