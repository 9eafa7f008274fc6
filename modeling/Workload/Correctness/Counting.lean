import Workload.Correctness.Views

/-!
# `Correctness.Counting` — the counters as one value

What each section under `m_reassign_lock` does to the counters of files, disks and workload, as a function on
the view `Counters`. The lemmas of the last section say that the code of each section is that function.
-/

namespace Workload

/-! ## Sections on the view -/

/-- A disk service counts the file it wrote. -/
def Counters.serve (c : Counters) (f : FilePtr) (d : DiskPtr) : Counters :=
  { c with
    fileWrite := Function.update c.fileWrite f (add64 (c.fileWrite f) 1)
    diskWrite := Function.update c.diskWrite d (add64 (c.diskWrite d) 1)
    write := add64 c.write 1 }

/-- An access counts for the file, its disk and the workload. -/
def Counters.access (c : Counters) (f : FilePtr) (home : Option DiskPtr) (r w : Nat) : Counters where
  fileRead := Function.update c.fileRead f (add64 (c.fileRead f) r)
  fileWrite := Function.update c.fileWrite f (add64 (c.fileWrite f) w)
  diskRead := match home with
    | none => c.diskRead
    | some d => Function.update c.diskRead d (add64 (c.diskRead d) r)
  diskWrite := match home with
    | none => c.diskWrite
    | some d => Function.update c.diskWrite d (add64 (c.diskWrite d) w)
  read := add64 c.read r
  write := add64 c.write w

/-- The relocate switches clear the counters of the disks only. -/
def Counters.restart (c : Counters) (disks : List DiskPtr) : Counters :=
  { c with
    diskRead := fun d => if d ∈ disks then 0 else c.diskRead d
    diskWrite := fun d => if d ∈ disks then 0 else c.diskWrite d }

/-- The reset clears everything. -/
def Counters.reset (c : Counters) (disks : List DiskPtr) (files : List FilePtr) : Counters where
  fileRead := fun f => if f ∈ files then 0 else c.fileRead f
  fileWrite := fun f => if f ∈ files then 0 else c.fileWrite f
  diskRead := fun d => if d ∈ disks then 0 else c.diskRead d
  diskWrite := fun d => if d ∈ disks then 0 else c.diskWrite d
  read := 0
  write := 0

/-! ## The code of the sections -/

variable {s : State} {f : FilePtr} {d : DiskPtr}

theorem counters_modifyFile_eq (g : File → File) :
    (s.modifyFile f g).counters =
      { s.counters with
        fileRead := Function.update s.counters.fileRead f (g (s.files f)).readCount
        fileWrite := Function.update s.counters.fileWrite f (g (s.files f)).writeCount } := by
  refine Counters.ext ?_ ?_ rfl rfl rfl rfl <;> funext x <;>
    simp only [State.counters, State.modifyFile_files, Function.update_apply] <;> split_ifs <;> rfl

theorem counters_modifyDisk_eq (g : Disk → Disk) :
    (s.modifyDisk d g).counters =
      { s.counters with
        diskRead := Function.update s.counters.diskRead d (g (s.disks d)).readCount
        diskWrite := Function.update s.counters.diskWrite d (g (s.disks d)).writeCount } := by
  refine Counters.ext rfl rfl ?_ ?_ rfl rfl <;> funext x <;>
    simp only [State.counters, State.modifyDisk_disks, Function.update_apply] <;> split_ifs <;> rfl

theorem counters_setTotals_eq (r w : Nat) :
    (s.setTotals r w).counters = { s.counters with read := r, write := w } := rfl

/-- **Disk service.** -/
theorem serviceSection_counters : (serviceSection s f d).counters = s.counters.serve f d := by
  unfold serviceSection
  dsimp only
  rw [updateDb_views.2.2.1, counters_setTotals_eq, counters_modifyDisk_eq, counters_modifyFile_eq]
  refine Counters.ext ?_ rfl ?_ rfl rfl rfl
  · exact Function.update_eq_self _ _
  · exact Function.update_eq_self _ _

/-- **Access.** -/
theorem countAccess_counters (r w : Nat) :
    (countAccess s f r w).counters = s.counters.access f (s.placement.home f) r w := by
  unfold countAccess
  have hhome : ((s.modifyFile f fun file =>
      { file with
        readCount := add64 file.readCount r
        writeCount := add64 file.writeCount w
        timeStamp := s.timeStamp }).files f).assignDisk = s.placement.home f := by
    rw [State.modifyFile_files, if_pos rfl]
    rfl
  dsimp only
  rw [hhome]
  cases s.placement.home f with
  | none =>
      dsimp only
      rw [counters_setTotals_eq, counters_modifyFile_eq]
      rfl
  | some d =>
      dsimp only
      rw [counters_setTotals_eq, counters_modifyDisk_eq, counters_modifyFile_eq]
      rfl

/-- Clearing the counters one file after the other. -/
theorem resetFiles_counters (files : List FilePtr) (s : State) :
    (files.foldl resetFile s).counters =
      { s.counters with
        fileRead := fun f => if f ∈ files then 0 else s.counters.fileRead f
        fileWrite := fun f => if f ∈ files then 0 else s.counters.fileWrite f } := by
  induction files generalizing s with
  | nil => refine Counters.ext ?_ ?_ rfl rfl rfl rfl <;> funext x <;> simp
  | cons f files ih =>
      rw [List.foldl_cons, ih]
      unfold resetFile
      rw [updateDb_views.2.2.1, counters_modifyFile_eq]
      refine Counters.ext ?_ ?_ rfl rfl rfl rfl <;> funext x
      · by_cases hx : x = f <;> simp [hx]
      · by_cases hx : x = f <;> simp [hx]

/-- Clearing the counters one disk after the other, for a loop whose rounds do that. -/
theorem clearDisks_counters {round : State → DiskPtr → State}
    (hround : ∀ s d, (round s d).counters =
      { s.counters with
        diskRead := Function.update s.counters.diskRead d 0
        diskWrite := Function.update s.counters.diskWrite d 0 })
    (disks : List DiskPtr) (s : State) :
    (disks.foldl round s).counters = s.counters.restart disks := by
  induction disks generalizing s with
  | nil => refine Counters.ext rfl rfl ?_ ?_ rfl rfl <;> funext x <;> simp [Counters.restart]
  | cons d disks ih =>
      rw [List.foldl_cons, ih, hround]
      refine Counters.ext rfl rfl ?_ ?_ rfl rfl <;> funext x
      · by_cases hx : x = d <;> simp [Counters.restart, hx]
      · by_cases hx : x = d <;> simp [Counters.restart, hx]

theorem resetDisk_counters (s : State) (d : DiskPtr) :
    (resetDisk s d).counters =
      { s.counters with
        diskRead := Function.update s.counters.diskRead d 0
        diskWrite := Function.update s.counters.diskWrite d 0 } := by
  unfold resetDisk
  rw [updateDb_views.2.2.1, counters_modifyDisk_eq]

theorem restartDisk_counters (s : State) (d : DiskPtr) :
    (restartDisk s d).counters =
      { s.counters with
        diskRead := Function.update s.counters.diskRead d 0
        diskWrite := Function.update s.counters.diskWrite d 0 } := by
  unfold restartDisk
  rw [updateDb_views.2.2.1, counters_modifyDisk_eq]

/-- **Relocate switches.** -/
theorem relocateSection_counters : (relocateSection s).counters = s.counters.restart s.diskHead :=
  clearDisks_counters restartDisk_counters _ s

/-- **Reset.** -/
theorem workloadResetFileAccessCount_counters :
    (workloadResetFileAccessCount s).counters = s.counters.reset s.diskHead s.fileHead := by
  unfold workloadResetFileAccessCount
  have hdisks : (s.fileHead.foldl resetFile s).diskHead = s.diskHead :=
    congrArg Roster.diskHead (foldl_keeps (p := State.roster)
      (fun s f => (resetFile_frame s f).roster) s.fileHead s)
  dsimp only
  rw [counters_setTotals_eq, clearDisks_counters resetDisk_counters, hdisks, resetFiles_counters]
  rfl

/-! ## What an access counts -/

theorem readLoop_le (rounds : Nat → IoRound) (fuel k : Nat) (rest : Bytes) {deltaRead : Nat}
    (h : deltaRead ≤ 1) : readLoop rounds fuel k rest deltaRead ≤ 1 := by
  induction fuel generalizing k rest deltaRead with
  | zero => exact h
  | succ fuel ih =>
      unfold readLoop
      split_ifs
      · exact h
      · split
        · exact h
        · dsimp only
          split_ifs
          · exact h
          · exact ih _ _ (Nat.le_refl 1)

/-- A transfer counts one read, one write or nothing. -/
theorem accessTransfer_le (s : State) (f : FilePtr) (d : DiskPtr) (io : AccessIo) :
    (accessTransfer s f d io).1.1 + (accessTransfer s f d io).1.2 ≤ 1 := by
  unfold accessTransfer
  dsimp only
  cases s.fs (s.dir d) (s.files f).filename with
  | none => split_ifs <;> exact Nat.zero_le 1
  | some contents =>
      dsimp only
      split_ifs
      · exact Nat.zero_le 1
      · exact Nat.zero_le 1
      · exact readLoop_le _ _ _ _ (Nat.le_refl 1)
      · exact readLoop_le _ _ _ _ (Nat.zero_le 1)
      · exact Nat.le_refl 1
      · exact Nat.zero_le 1

/-- **What one access does**: nothing, an uncounted transfer, or a transfer and the section for one read or
    one write. -/
theorem workloadFileAccess_cases (s : State) (f : FilePtr) (io : AccessIo) :
    (workloadFileAccess s (some f) io).1 ≤ 0 ∧
        ((workloadFileAccess s (some f) io).2 = s ∨
          ∃ d, s.placement.home f = some d ∧
            (workloadFileAccess s (some f) io).2 = (accessTransfer s f d io).2) ∨
      (workloadFileAccess s (some f) io).1 = 1 ∧
        ∃ d r w, s.placement.home f = some d ∧ r + w = 1 ∧
          (accessTransfer s f d io).1 = (r, w) ∧
          (workloadFileAccess s (some f) io).2 = accessSection (accessTransfer s f d io).2 f r w := by
  have hh : s.placement.home f = (s.files f).assignDisk := rfl
  rw [hh]
  unfold workloadFileAccess
  dsimp only
  cases hhome : (s.files f).assignDisk with
  | none => exact Or.inl ⟨Int.le_refl 0, Or.inl rfl⟩
  | some d =>
      have hle := accessTransfer_le s f d io
      dsimp only
      split_ifs with hpath hcount
      · exact Or.inl ⟨by show (-1 : Int) ≤ 0; decide, Or.inl rfl⟩
      · have hone : (accessTransfer s f d io).1.1 + (accessTransfer s f d io).1.2 = 1 :=
          Nat.le_antisymm hle hcount
        right
        rw [hone]
        exact ⟨rfl, d, _, _, rfl, hone, rfl, rfl⟩
      · have hzero : (accessTransfer s f d io).1.1 + (accessTransfer s f d io).1.2 = 0 :=
          Nat.eq_zero_of_not_pos hcount
        left
        rw [hzero]
        exact ⟨Int.le_refl 0, Or.inr ⟨d, rfl, rfl⟩⟩

end Workload
