import Workload.Correctness.Copies

/-!
# `Correctness.Transfers` — what a move leaves in the target

Behind the copy `__workload_move_assign_file` does not ask how the copy ended: end of file, a read error, a
short write and a break request all go on to take the file off its disk. The fast copy is one `sendfile` call,
which transfers a bounded number of bytes.

* **`move_all_or_nothing`** — a move is all or nothing exactly when, once source and target are open, the copy
  is not cut short.
* **`sendfile_agrees`** — without disturbances the fast copy leaves what the plain one leaves, exactly when the
  source is no longer than one `sendfile` call transfers.
-/

namespace Workload

/-! ## The plain copy -/

/-- The bytes not read yet before round `k + j`, with `left` before round `k`. -/
def unread (rounds : Nat → IoRound) : Nat → Nat → Nat → Nat
  | 0, _, left => left
  | j + 1, k, left => unread rounds j (k + 1) (left - min ((rounds k).read.getD 0) 4096)

/-- As long as bytes are left, no round is broken off, reads nothing, or writes less than it read. -/
def GoesThrough (rounds : Nat → IoRound) (k left : Nat) : Prop :=
  ∀ j, 0 < unread rounds j k left → (rounds (k + j)).brk = false ∧
    ∃ n, (rounds (k + j)).read = some n ∧ 0 < n ∧ ∃ w, (rounds (k + j)).write = some w ∧
      min (min n 4096) (unread rounds j k left) ≤ w

theorem unread_zero (rounds : Nat → IoRound) (j k : Nat) : unread rounds j k 0 = 0 := by
  induction j generalizing k with
  | zero => rfl
  | succ j ih =>
      unfold unread
      rw [Nat.zero_sub]
      exact ih (k + 1)

/-- The first round, and the others. -/
theorem goesThrough_iff {rounds : Nat → IoRound} {k left : Nat} :
    GoesThrough rounds k left ↔ left = 0 ∨ (rounds k).brk = false ∧
      ∃ n, (rounds k).read = some n ∧ 0 < n ∧ ∃ w, (rounds k).write = some w ∧
        min (min n 4096) left ≤ w ∧ GoesThrough rounds (k + 1) (left - min n 4096) := by
  constructor
  · intro h
    rcases Nat.eq_zero_or_pos left with hzero | hpos
    · exact Or.inl hzero
    · obtain ⟨hbrk, n, hread, hn, w, hwrite, hw⟩ := h 0 hpos
      refine Or.inr ⟨hbrk, n, hread, hn, w, hwrite, hw, fun j hj => ?_⟩
      have hnext : unread rounds (j + 1) k left = unread rounds j (k + 1) (left - min n 4096) := by
        conv_lhs => unfold unread
        rw [show (rounds k).read = some n from hread]
        rfl
      rw [← hnext] at hj ⊢
      rw [Nat.add_right_comm, Nat.add_assoc]
      exact h (j + 1) hj
  · rintro (rfl | ⟨hbrk, n, hread, hn, w, hwrite, hw, h⟩) j hj
    · rw [unread_zero] at hj
      exact absurd hj (Nat.lt_irrefl 0)
    · cases j with
      | zero => exact ⟨hbrk, n, hread, hn, w, hwrite, hw⟩
      | succ j =>
          have hnext : unread rounds (j + 1) k left = unread rounds j (k + 1) (left - min n 4096) := by
            conv_lhs => unfold unread
            rw [hread]
            rfl
          rw [hnext] at hj ⊢
          rw [← Nat.add_assoc, Nat.add_right_comm]
          exact h j hj

/-- **The plain copy is complete** exactly when it goes through. -/
theorem copyLoop_eq {rounds : Nat → IoRound} {fuel k : Nat} {rest out : Bytes} (hfuel : rest.length < fuel) :
    copyLoop rounds fuel k rest out = out ++ rest ↔ GoesThrough rounds k rest.length := by
  induction fuel generalizing k rest out with
  | zero => exact absurd hfuel (Nat.not_lt_zero _)
  | succ fuel ih =>
      rw [goesThrough_iff]
      unfold copyLoop
      by_cases hrest : rest = []
      · -- at the end of the file it does not matter how the loop ends
        subst hrest
        refine ⟨fun _ => Or.inl rfl, fun _ => ?_⟩
        cases (rounds k).brk with
        | true => simp
        | false => cases (rounds k).read <;> simp
      have hlen : 0 < rest.length := List.length_pos_iff.mpr hrest
      have hcut : ∀ {part : Bytes}, part.length < rest.length → (out ++ part = out ++ rest ↔ False) := by
        intro part hpart
        refine ⟨fun h => ?_, False.elim⟩
        rw [List.append_cancel_left h] at hpart
        exact Nat.lt_irrefl _ hpart
      have hzero : ¬ rest.length = 0 := by omega
      rw [or_iff_right hzero]
      cases hbrk : (rounds k).brk with
      | true => simpa using hrest
      | false =>
          cases hread : (rounds k).read with
          | none => simpa using hrest
          | some n =>
              simp only [Bool.false_eq_true, if_false, true_and, Option.some.injEq, exists_eq_left']
              have hbuffer : (rest.take (min n 4096)).length = min (min n 4096) rest.length := List.length_take
              by_cases hn : n = 0
              · simp [hn, hrest]
              have hne : rest.take (min n 4096) ≠ [] := by
                intro h
                rw [h, List.length_nil] at hbuffer
                omega
              rw [if_neg hne]
              cases hwrite : (rounds k).write with
              | none => simpa using hrest
              | some w =>
                  dsimp only
                  rw [hbuffer]
                  by_cases hw : w < min (min n 4096) rest.length
                  · rw [if_pos hw, hcut (by rw [List.length_take]; omega)]
                    refine ⟨False.elim, ?_⟩
                    rintro ⟨-, w', hsome, hle, -⟩
                    obtain rfl := Option.some.inj hsome
                    omega
                  · rw [if_neg hw]
                    have hdrop : (rest.drop (min (min n 4096) rest.length)).length =
                        rest.length - min n 4096 := by
                      rw [List.length_drop]
                      omega
                    have hsplit : out ++ rest.take (min n 4096) ++
                        rest.drop (min (min n 4096) rest.length) = out ++ rest := by
                      rw [List.append_assoc]
                      congr 1
                      rcases Nat.le_total (min n 4096) rest.length with hle | hle
                      · rw [Nat.min_eq_left hle, List.take_append_drop]
                      · rw [Nat.min_eq_right hle, List.take_of_length_le hle, List.drop_length,
                          List.append_nil]
                    rw [← hsplit, ih (by omega), hdrop]
                    constructor
                    · exact fun h => ⟨Nat.pos_of_ne_zero hn, w, rfl, Nat.not_lt.mp hw, h⟩
                    · rintro ⟨-, w', -, -, h⟩
                      exact h

/-! ## The copy of a move -/

/-- The copy transfers a source of that length whole. -/
def CopiesWhole (cfg : Cfg) (io : MoveIo) (length : Nat) : Prop :=
  if cfg.accessSendfile = 0 then GoesThrough io.rounds 0 length
  else length ≤ min (toSize cfg.filesize) (min sendfileMax (io.sendfile.getD 0))

theorem copyContents_eq {cfg : Cfg} {io : MoveIo} {contents : Bytes} :
    copyContents cfg io contents = contents ↔ CopiesWhole cfg io contents.length := by
  unfold copyContents CopiesWhole
  split_ifs
  · exact @copyLoop_eq io.rounds _ 0 contents [] (Nat.lt_succ_self _)
  · cases io.sendfile with
    | none =>
        rw [Option.getD_none, Nat.min_zero, Nat.min_zero, Nat.le_zero, List.length_eq_zero_iff]
        exact eq_comm
    | some n => exact List.take_eq_self_iff contents

theorem copyContents_nil (cfg : Cfg) (io : MoveIo) : copyContents cfg io [] = [] := by
  refine copyContents_eq.mpr ?_
  unfold CopiesWhole
  split_ifs
  · exact goesThrough_iff.mpr (Or.inl rfl)
  · exact Nat.zero_le _

variable {s : State} {f : FilePtr} {d home : DiskPtr} {io : MoveIo}

/-- Source and target of the move can be opened. -/
structure MoveOpens (s : State) (f : FilePtr) (home d : DiskPtr) (io : MoveIo) : Prop where
  fromPath : io.fromPath = true
  fromOpen : io.fromOpen = true
  source : s.fs (s.dir home) (s.files f).filename ≠ none
  toPath : io.toPath = true
  target : io.toExcl = true ∧ s.fs (s.dir d) (s.files f).filename = none ∨ io.toTrunc = true

/-- The file created by an earlier move is deleted on its way. -/
def DeletesSource (s : State) (f : FilePtr) (io : MoveIo) : Prop :=
  (s.files f).created = true ∧ io.deassign.path = true ∧ io.deassign.delete = true

/-- When a file cannot be opened, nothing happens. -/
theorem move_refused (hhome : (s.files f).assignDisk = some home) (h : ¬ MoveOpens s f home d io) :
    workloadMoveAssignFile s f d io = (-1, s) := by
  unfold workloadMoveAssignFile
  rw [hhome]
  dsimp only
  by_cases hfromPath : io.fromPath = false
  · rw [if_pos hfromPath]
  rw [if_neg hfromPath]
  by_cases hfrom : io.fromOpen = false ∨ s.fs (s.dir home) (s.files f).filename = none
  · rw [if_pos hfrom]
  rw [if_neg hfrom]
  by_cases htoPath : io.toPath = false
  · rw [if_pos htoPath]
  rw [if_neg htoPath]
  refine if_pos ⟨?_, ?_⟩
  · rw [← Bool.not_eq_true, Bool.and_eq_true, Option.isNone_iff_eq_none]
    exact fun hcreate => h ⟨by simpa using hfromPath, by simpa using (not_or.mp hfrom).1,
      (not_or.mp hfrom).2, by simpa using htoPath, Or.inl hcreate⟩
  · rw [← Bool.not_eq_true]
    exact fun htrunc => h ⟨by simpa using hfromPath, by simpa using (not_or.mp hfrom).1,
      (not_or.mp hfrom).2, by simpa using htoPath, Or.inr htrunc⟩

/-- What leaving a disk does to the files on the disks. -/
theorem deassign_fs (hhome : (s.files f).assignDisk = some home) (io : DeassignIo) :
    (workloadDeassignFile s f io).2.fs =
      if (s.files f).created = true ∧ io.path = true ∧ io.delete = true then
        (s.setPath (s.dir home) (s.files f).filename none).fs
      else s.fs := by
  have hunlink : ∀ s : State, (unlinkFile s f home).fs = s.fs := fun s =>
    congrArg Contents.fs (unlinkFile_views (s := s) (f := f) (d := home)).2.2.2.2.1
  unfold workloadDeassignFile
  rw [hhome]
  dsimp only
  rw [hunlink]
  unfold deleteCreated
  dsimp only
  by_cases hcreated : (s.files f).created = true ∧ io.path = true
  · rw [if_pos hcreated]
    by_cases hdelete : io.delete = true
    · rw [if_pos hdelete, if_pos ⟨hcreated.1, hcreated.2, hdelete⟩]
      rfl
    · rw [if_neg hdelete, if_neg fun h => hdelete h.2.2]
      rfl
  · rw [if_neg hcreated, if_neg fun h => hcreated ⟨h.1, h.2.1⟩]

/-- What the target holds behind the copy: the source is read once the target is truncated. -/
def targetContents (s : State) (f : FilePtr) (home d : DiskPtr) (io : MoveIo) : Bytes :=
  let name := (s.files f).filename
  copyContents s.cfg io (((s.setPath (s.dir d) name (some [])).fs (s.dir home) name).getD [])

/-- With both files open, the move goes through to its end. On the disks it leaves the copy, and no source if
    that is deleted. -/
theorem move_goes (hhome : (s.files f).assignDisk = some home) (h : MoveOpens s f home d io) :
    (workloadMoveAssignFile s f d io).1 = 0 ∧
      let name := (s.files f).filename
      let copied := s.setPath (s.dir d) name (some (targetContents s f home d io))
      (DeletesSource s f io →
        (workloadMoveAssignFile s f d io).2.fs = (copied.setPath (s.dir home) name none).fs) ∧
      (¬ DeletesSource s f io → (workloadMoveAssignFile s f d io).2.fs = copied.fs) := by
  have hopen : ¬ ((io.toExcl && (s.fs (s.dir d) (s.files f).filename).isNone) = false ∧
      io.toTrunc = false) := by
    rintro ⟨hcreate, htrunc⟩
    rcases h.target with ⟨hexcl, hnone⟩ | htrunc'
    · rw [hexcl, hnone] at hcreate
      exact Bool.noConfusion hcreate
    · exact Bool.noConfusion (htrunc.symm.trans htrunc')
  have htwice : ∀ (s : State) dir name c c', (s.setPath dir name c).setPath dir name c' =
      s.setPath dir name c' := by
    intro s dir name c c'
    simp [State.setPath]
  have hok : ¬ (0 : Int) = -1 := by decide
  have hfs : (workloadMoveAssignFile s f d io).1 = 0 ∧ (workloadMoveAssignFile s f d io).2.fs =
      (workloadDeassignFile (s.setPath (s.dir d) (s.files f).filename
        (some (targetContents s f home d io))) f io.deassign).2.fs := by
    unfold workloadMoveAssignFile
    rw [hhome]
    dsimp only
    rw [if_neg (by rw [h.fromPath]; decide), if_neg (not_or.mpr ⟨by rw [h.fromOpen]; decide, h.source⟩),
      if_neg (by rw [h.toPath]; decide), if_neg hopen, (deassign_placement _ f io.deassign).1, if_neg hok,
      htwice]
    exact ⟨rfl, rfl⟩
  have hleave := hfs.2.trans (deassign_fs (s := s.setPath _ _ _) hhome io.deassign)
  exact ⟨hfs.1, fun hdelete => hleave.trans (if_pos hdelete), fun hdelete => hleave.trans (if_neg hdelete)⟩

/-- What the target holds behind a move between two directories. -/
theorem move_target {contents : Bytes} (hhome : (s.files f).assignDisk = some home)
    (hopens : MoveOpens s f home d io) (hdir : s.dir d ≠ s.dir home)
    (hcontents : s.fs (s.dir home) (s.files f).filename = some contents) :
    (workloadMoveAssignFile s f d io).2.fs (s.dir d) (s.files f).filename =
      some (copyContents s.cfg io contents) := by
  have htarget : targetContents s f home d io = copyContents s.cfg io contents := by
    unfold targetContents
    dsimp only
    rw [State.setPath_fs, if_neg fun h => hdir h.1.symm, hcontents]
    rfl
  obtain ⟨-, hdeleted, hkept⟩ := move_goes hhome hopens
  rw [← htarget]
  by_cases hdelete : DeletesSource s f io
  · rw [hdeleted hdelete, State.setPath_fs, if_neg fun h => hdir h.1, State.setPath_fs, if_pos ⟨rfl, rfl⟩]
  · rw [hkept hdelete, State.setPath_fs, if_pos ⟨rfl, rfl⟩]

/-- The target behind a move within one directory is empty or gone, whatever the copy does. -/
theorem move_target_same (hhome : (s.files f).assignDisk = some home) (hopens : MoveOpens s f home d io)
    (hdir : s.dir d = s.dir home) :
    (DeletesSource s f io →
      (workloadMoveAssignFile s f d io).2.fs (s.dir d) (s.files f).filename = none) ∧
    (¬ DeletesSource s f io →
      (workloadMoveAssignFile s f d io).2.fs (s.dir d) (s.files f).filename = some []) := by
  have htarget : targetContents s f home d io = [] := by
    unfold targetContents
    dsimp only
    rw [State.setPath_fs, if_pos ⟨hdir.symm, rfl⟩]
    exact copyContents_nil s.cfg io
  obtain ⟨-, hdeleted, hkept⟩ := move_goes hhome hopens
  constructor
  · intro hdelete
    rw [hdeleted hdelete, State.setPath_fs, if_pos ⟨hdir, rfl⟩]
  · intro hdelete
    rw [hkept hdelete, State.setPath_fs, if_pos ⟨rfl, rfl⟩, htarget]

/-- Both paths name one directory: the move truncates its own source, and returns `0`. -/
example :
    let s := { smallLoaded with directory := fun _ => "a".toList }
    (s.disks 0).path ≠ (s.disks 1).path ∧ s.fs "a".toList (s.files 0).filename = some [0] ∧
      (workloadAssignFileToDisk s (some 0) (some 1) smallMove).1 = 0 ∧
      (workloadAssignFileToDisk s (some 0) (some 1) smallMove).2.fs "a".toList (s.files 0).filename = some [] := by
  decide +kernel

/-- Every call of the move succeeds, nothing is read or written short, and no break is requested; `sendfile`
    transfers as much as it may. -/
structure MoveIo.Undisturbed (io : MoveIo) : Prop where
  fromPath : io.fromPath = true
  fromOpen : io.fromOpen = true
  toPath : io.toPath = true
  toTrunc : io.toTrunc = true
  rounds : ∀ k, (io.rounds k).brk = false ∧
    ∃ n, (io.rounds k).read = some n ∧ 4096 ≤ n ∧ ∃ w, (io.rounds k).write = some w ∧ 4096 ≤ w
  sendfile : ∃ n, io.sendfile = some n ∧ sendfileMax ≤ n

/-- `m_access_sendfile` has that value. -/
def State.withSendfile (s : State) (accessSendfile : Int) : State :=
  { s with cfg := { s.cfg with accessSendfile := accessSendfile } }

/-- An undisturbed copy goes through, however long the source is. -/
theorem MoveIo.Undisturbed.goesThrough (hio : io.Undisturbed) (k left : Nat) :
    GoesThrough io.rounds k left := by
  intro j _
  obtain ⟨hbrk, n, hread, hn, w, hwrite, hw⟩ := hio.rounds (k + j)
  exact ⟨hbrk, n, hread, by omega, w, hwrite, by omega⟩

/-- The plain copy leaves the source, the fast one what one `sendfile` call transfers of it. -/
theorem MoveIo.Undisturbed.copyContents (hio : io.Undisturbed) {cfg : Cfg} {contents : Bytes}
    (hsize : (contents.length : Int) ≤ cfg.filesize) (hrange : cfg.filesize < 2 ^ 63) :
    copyContents cfg io contents =
      if cfg.accessSendfile = 0 then contents else contents.take sendfileMax := by
  unfold Workload.copyContents
  split_ifs
  · have hcopy := @copyLoop_eq io.rounds _ 0 contents [] (Nat.lt_succ_self _)
    exact hcopy.mpr (hio.goesThrough 0 contents.length)
  · obtain ⟨n, hn, hmax⟩ := hio.sendfile
    have hwant : contents.length ≤ toSize cfg.filesize := by
      unfold toSize
      omega
    rw [hn]
    dsimp only
    rw [Nat.min_eq_left hmax]
    rcases Nat.le_total sendfileMax (toSize cfg.filesize) with hle | hle
    · rw [Nat.min_eq_right hle]
    · rw [Nat.min_eq_left hle, List.take_of_length_le hwant, List.take_of_length_le (hwant.trans hle)]

/-- What an undisturbed move between two directories leaves in the target, by either copy. -/
theorem MoveIo.Undisturbed.target (hio : io.Undisturbed) {contents : Bytes}
    (hhome : (s.files f).assignDisk = some home) (hdir : s.dir d ≠ s.dir home)
    (hcontents : s.fs (s.dir home) (s.files f).filename = some contents)
    (hsize : (contents.length : Int) ≤ s.cfg.filesize) (hrange : s.cfg.filesize < 2 ^ 63) (sendfile : Int) :
    (workloadMoveAssignFile (s.withSendfile sendfile) f d io).2.fs (s.dir d) (s.files f).filename =
      some (if sendfile = 0 then contents else contents.take sendfileMax) := by
  have hopens : MoveOpens (s.withSendfile sendfile) f home d io :=
    ⟨hio.fromPath, hio.fromOpen, fun hnone => Option.some_ne_none _ (hcontents.symm.trans hnone), hio.toPath,
      Or.inr hio.toTrunc⟩
  refine (move_target (s := s.withSendfile sendfile) hhome hopens hdir hcontents).trans ?_
  have hcfg : (contents.length : Int) ≤ (s.withSendfile sendfile).cfg.filesize := hsize
  exact congrArg some (hio.copyContents hcfg hrange)

/-- **The fast copy agrees with the plain one** exactly when one `sendfile` call can transfer the source, or the
    move stays in one directory. -/
theorem sendfile_agrees {contents : Bytes} (hhome : (s.files f).assignDisk = some home)
    (hcontents : s.fs (s.dir home) (s.files f).filename = some contents)
    (hsize : (contents.length : Int) ≤ s.cfg.filesize) (hrange : s.cfg.filesize < 2 ^ 63)
    (hio : io.Undisturbed) :
    (∀ sendfile : Int, sendfile ≠ 0 →
      (workloadMoveAssignFile (s.withSendfile sendfile) f d io).2.fs (s.dir d) (s.files f).filename =
        (workloadMoveAssignFile (s.withSendfile 0) f d io).2.fs (s.dir d) (s.files f).filename) ↔
      contents.length ≤ sendfileMax ∨ s.dir d = s.dir home := by
  have hopens : ∀ sendfile, MoveOpens (s.withSendfile sendfile) f home d io := fun sendfile =>
    ⟨hio.fromPath, hio.fromOpen, fun hnone => Option.some_ne_none _ (hcontents.symm.trans hnone), hio.toPath,
      Or.inr hio.toTrunc⟩
  by_cases hdir : s.dir d = s.dir home
  · refine iff_of_true (fun sendfile _ => ?_) (Or.inr hdir)
    have hfast := move_target_same (s := s.withSendfile sendfile) hhome (hopens sendfile) hdir
    have hplain := move_target_same (s := s.withSendfile 0) hhome (hopens 0) hdir
    by_cases hdelete : DeletesSource s f io
    · exact (hfast.1 hdelete).trans (hplain.1 hdelete).symm
    · exact (hfast.2 hdelete).trans (hplain.2 hdelete).symm
  · simp only [hio.target hhome hdir hcontents hsize hrange, if_true, Option.some.injEq]
    rw [or_iff_left hdir, ← List.take_eq_self_iff]
    constructor
    · intro h
      have hone := h 1 (by decide)
      rwa [if_neg (by decide)] at hone
    · intro h sendfile hne
      rw [if_neg hne]
      exact h

/-- `sendfile` transfers whatever is asked of it. -/
def smallFastMove : MoveIo := { smallMove with sendfile := some sendfileMax }

theorem smallFastMove_undisturbed : smallFastMove.Undisturbed where
  fromPath := rfl
  fromOpen := rfl
  toPath := rfl
  toTrunc := rfl
  rounds _ := ⟨rfl, 4096, rfl, Nat.le_refl _, 4096, rfl, Nat.le_refl _⟩
  sendfile := ⟨sendfileMax, rfl, Nat.le_refl _⟩

/-- Both copies move the byte of the first file. -/
theorem sendfile_agrees_small :
    (workloadMoveAssignFile (smallLoaded.withSendfile 1) 0 1 smallFastMove).2.fs (smallLoaded.dir 1)
        (smallLoaded.files 0).filename =
      (workloadMoveAssignFile (smallLoaded.withSendfile 0) 0 1 smallFastMove).2.fs (smallLoaded.dir 1)
        (smallLoaded.files 0).filename := by
  have hhome : (smallLoaded.files 0).assignDisk = some 0 := by decide +kernel
  have hcontents : smallLoaded.fs (smallLoaded.dir 0) (smallLoaded.files 0).filename = some [0] := by
    decide +kernel
  exact (sendfile_agrees (d := 1) hhome hcontents (by decide +kernel) (by decide +kernel)
    smallFastMove_undisturbed).mpr (Or.inl (by decide)) 1 (by decide)

/-- The small configuration with large files, and one byte more in the first file than `sendfile` transfers. -/
def largeFile : State :=
  { smallLoaded with cfg := { smallLoaded.cfg with filesize := 2 ^ 31 } }.setPath (smallLoaded.dir 0)
    (smallLoaded.files 0).filename (some (List.replicate (sendfileMax + 1) 0))

/-- Of that file the fast copy leaves the last byte behind. -/
theorem sendfile_cuts :
    (workloadMoveAssignFile (largeFile.withSendfile 1) 0 1 smallFastMove).2.fs (largeFile.dir 1)
        (largeFile.files 0).filename = some (List.replicate sendfileMax 0) ∧
      (workloadMoveAssignFile (largeFile.withSendfile 0) 0 1 smallFastMove).2.fs (largeFile.dir 1)
        (largeFile.files 0).filename = some (List.replicate (sendfileMax + 1) 0) := by
  have hhome : (smallLoaded.files 0).assignDisk = some 0 := by decide +kernel
  have hdir : smallLoaded.dir 1 ≠ smallLoaded.dir 0 := by decide +kernel
  have hcontents : largeFile.fs (smallLoaded.dir 0) (smallLoaded.files 0).filename =
      some (List.replicate (sendfileMax + 1) 0) := by
    unfold largeFile
    rw [State.setPath_fs, if_pos ⟨rfl, rfl⟩]
  have hsize : ((List.replicate (sendfileMax + 1) (0 : UInt8)).length : Int) ≤ largeFile.cfg.filesize := by
    rw [List.length_replicate]
    show ((0x7ffff000 + 1 : Nat) : Int) ≤ 2 ^ 31
    decide
  have htarget := smallFastMove_undisturbed.target (s := largeFile) (d := 1) hhome hdir hcontents hsize
    (show (2 ^ 31 : Int) < 2 ^ 63 by decide)
  refine ⟨?_, htarget 0⟩
  rw [htarget 1, if_neg (by decide), List.take_replicate, Nat.min_eq_left (Nat.le_succ _)]

end Workload
