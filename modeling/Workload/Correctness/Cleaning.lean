import Workload.Correctness.Writing

/-!
# `Correctness.Cleaning` — what an unload cleans up

`workload_unload_config` hands the head of the chain of files to `workload_free_file`, which deassigns and
releases that one object; the others stay allocated. A deassigned file loses its data file only with the
created flag, which a move sets and the start-up writer does not; `m_files_remove` is not read anywhere. The
directories a disk service created are deleted as a whole.

The `journal` of a run lists the paths it opened for writing.

* **`Rooted.step`** — the file written at start-up stays where it is.
* **`unload_cleans_up`** — the clean-up is complete and obeys the remove setting, exactly when there is at most
  one file and its created flag happens to agree with the setting.
-/

namespace Workload

open Trace

/-! ## The paths a run writes -/

/-- The path a move opens for writing. -/
def moveTarget (s : State) (f : FilePtr) (d : DiskPtr) (io : MoveIo) : Option (Text × Text) :=
  match (s.files f).assignDisk with
  | none => none
  | some home =>
      let name := (s.files f).filename
      if home = d ∨ io.fromPath = false ∨ io.fromOpen = false ∨ s.fs (s.dir home) name = none ∨
          io.toPath = false then none
      else if (io.toExcl && (s.fs (s.dir d) name).isNone) = false ∧ io.toTrunc = false then none
      else some (s.dir d, name)

/-- The paths a relocation opens for writing. -/
def relocateTargets (ios : FilePtr → MoveIo) : List FilePtr → State → List (Text × Text)
  | [], _ => []
  | f :: files, s =>
      ((s.files f).reassignDisk.bind fun d => moveTarget s f d (ios f)).toList ++
        relocateTargets ios files (relocateFile s f (ios f))

/-- The path an access opens for writing. -/
def accessTarget (s : State) (f : FilePtr) (io : AccessIo) : Option (Text × Text) :=
  match (s.files f).assignDisk with
  | none => none
  | some d =>
      if io.path = false ∨ fakeOff s d = true ∨ s.fs (s.dir d) (s.files f).filename = none ∨
          io.opened = false ∨ accessWrites s io = false then none
      else some (s.dir d, (s.files f).filename)

/-- The paths a call opens for writing. -/
def Op.wrote (s : State) : Op → List (Text × Text)
  | .access (some f) io => (accessTarget s f io).toList
  | .relocate ios => relocateTargets ios s.fileHead s
  | _ => []

/-- The paths a run opens for writing. -/
def journal : State → List Op → List (Text × Text)
  | _, [] => []
  | s, op :: ops => op.wrote s ++ journal (op.run s) ops

/-- The paths the disk services have written when a load ends. -/
def startPaths (s : State) : List (Text × Text) :=
  s.fileHead.filterMap fun f => (s.files f).assignDisk.map fun d => (s.dir d, (s.files f).filename)

/-! ## What a move does to the directories -/

variable {s s' : State} {f : FilePtr} {d home : DiskPtr}

/-- A file that carries the flag is deleted, when the path can be formatted and the call succeeds. -/
theorem deleteCreated_fs (io : DeassignIo) (dir name : Text) :
    (deleteCreated s f home io).fs dir name =
      if ((s.files f).created = true ∧ io.path = true ∧ io.delete = true) ∧
        dir = s.dir home ∧ name = (s.files f).filename then none else s.fs dir name := by
  unfold deleteCreated
  by_cases hflag : (s.files f).created = true ∧ io.path = true
  · rw [if_pos hflag]
    cases hdelete : io.delete with
    | false =>
        change s.fs dir name = _
        rw [if_neg fun h => Bool.false_ne_true h.1.2.2]
    | true =>
        change (s.setPath (s.dir home) (s.files f).filename none).fs dir name = _
        rw [State.setPath_fs]
        simp [hflag]
  · rw [if_neg hflag, if_neg]
    rintro ⟨⟨hcreated, hpath, -⟩, -⟩
    exact hflag ⟨hcreated, hpath⟩

theorem deleteCreated_created (io : DeassignIo) {g : FilePtr} (hg : g ≠ f) :
    (deleteCreated s f home io).contents.created g = s.contents.created g := by
  unfold deleteCreated
  split_ifs
  · exact congrFun (congrArg Contents.created (contents_modifyFile_eq _ f _)) g |>.trans
      (Function.update_of_ne hg _ _)
  · exact congrFun (congrArg Contents.created (contents_modifyFile_eq _ f _)) g |>.trans
      (Function.update_of_ne hg _ _)
  · rfl

/-- Where a file goes on is left to the directories: the old copy may go, and the new flag is set. -/
theorem linked_contents (hhome : (s.files f).assignDisk = some home) (io : DeassignIo) (created : Bool) :
    (assignedSection (linkFile ((workloadDeassignFile s f io).2.modifyFile f fun file =>
        { file with created := created }) f d) f d (some home)).contents =
      ⟨(deleteCreated s f home io).fs, Function.update (deleteCreated s f home io).contents.created f created⟩ := by
  have hdeassign : (workloadDeassignFile s f io).2.contents = (deleteCreated s f home io).contents := by
    unfold workloadDeassignFile
    rw [hhome]
    exact unlinkFile_views.2.2.2.2.1
  rw [assignedSection_views.2.2.2.2.2.1, linkFile_views.2.2.2.2.1, contents_modifyFile_eq, hdeassign]
  exact congrArg (fun fs => (⟨fs, _⟩ : Contents)) (congrArg Contents.fs hdeassign)

/-- **A move, by what it opens.** Without a target nothing changes; else the target is written, the old copy
    goes with the flag, and the new flag says whether the target was new. -/
theorem assign_target (hhome : (s.files f).assignDisk = some home) (io : MoveIo) :
    (moveTarget s f d io = none → (workloadAssignFileToDisk s (some f) (some d) io).2 = s) ∧
    ∀ dir name, moveTarget s f d io = some (dir, name) →
      dir = s.dir d ∧ name = (s.files f).filename ∧
      (workloadAssignFileToDisk s (some f) (some d) io).1 = 0 ∧
      ∃ out, (∀ dir' name', (workloadAssignFileToDisk s (some f) (some d) io).2.fs dir' name' =
          if ((s.files f).created = true ∧ io.deassign.path = true ∧ io.deassign.delete = true) ∧
            dir' = s.dir home ∧ name' = (s.files f).filename then none
          else (s.setPath dir name (some out)).fs dir' name') ∧
        (workloadAssignFileToDisk s (some f) (some d) io).2.contents.created =
          Function.update s.contents.created f (io.toExcl && (s.fs dir name).isNone) := by
  have hfailed : ¬(-1 : Int) = 0 := by decide
  have hdeassigned : ¬(0 : Int) = -1 := by decide
  unfold workloadAssignFileToDisk moveTarget
  dsimp only
  rw [hhome]
  by_cases hsame : home = d
  · rw [hsame, if_pos rfl]
    simp
  have hold : ¬some home = some d := fun h => hsame (Option.some.inj h)
  unfold workloadMoveAssignFile
  rw [if_neg hold, hhome]
  dsimp only
  by_cases hfromPath : io.fromPath = false
  · simp [hfromPath]
  by_cases hfrom : io.fromOpen = false ∨ s.fs (s.dir home) (s.files f).filename = none
  · simp only [if_neg hfromPath, if_pos hfrom, if_neg hfailed]
    refine ⟨fun _ => trivial, fun dir name h => ?_⟩
    rw [if_pos (by tauto)] at h
    exact nomatch h
  by_cases htoPath : io.toPath = false
  · simp only [if_neg hfromPath, if_neg hfrom, if_pos htoPath, if_neg hfailed]
    refine ⟨fun _ => trivial, fun dir name h => ?_⟩
    rw [if_pos (by tauto)] at h
    exact nomatch h
  have hgo : ¬(home = d ∨ io.fromPath = false ∨ io.fromOpen = false ∨
      s.fs (s.dir home) (s.files f).filename = none ∨ io.toPath = false) := by
    tauto
  rw [if_neg hgo]
  by_cases hopen : (io.toExcl && (s.fs (s.dir d) (s.files f).filename).isNone) = false ∧
      io.toTrunc = false
  · simp only [if_neg hfromPath, if_neg hfrom, if_neg htoPath, if_pos hopen, if_neg hfailed]
    exact ⟨fun _ => trivial, nofun⟩
  simp only [if_neg hfromPath, if_neg hfrom, if_neg htoPath, if_neg hopen]
  refine ⟨nofun, fun dir name htarget => ?_⟩
  obtain ⟨rfl, rfl⟩ := Prod.mk.inj (Option.some.inj htarget)
  generalize copyContents _ io _ = out
  generalize hs₁ : (s.setPath (s.dir d) (s.files f).filename (some [])).setPath (s.dir d)
    (s.files f).filename (some out) = s₁
  have hfs₁ : s₁.fs = (s.setPath (s.dir d) (s.files f).filename (some out)).fs := by
    rw [← hs₁]
    simp [State.setPath]
  have hhome₁ : (s₁.files f).assignDisk = some home := by
    rw [← hs₁]
    exact hhome
  rw [(deassign_placement s₁ f io.deassign).1, if_neg hdeassigned, if_pos rfl]
  dsimp only
  have hcontents := linked_contents (d := d) hhome₁ io.deassign
    (io.toExcl && (s.fs (s.dir d) (s.files f).filename).isNone)
  refine ⟨rfl, rfl, rfl, out, fun dir' name' => ?_, ?_⟩
  · refine (congrFun (congrFun (congrArg Contents.fs hcontents) dir') name').trans ?_
    dsimp only
    rw [deleteCreated_fs, hfs₁]
    subst hs₁
    rfl
  · refine (congrArg Contents.created hcontents).trans (funext fun g => ?_)
    dsimp only
    rw [Function.update_apply, Function.update_apply]
    split_ifs with hg
    · rfl
    · rw [deleteCreated_created io.deassign hg]
      subst hs₁
      rfl

/-! ## The start-up copies stay -/

/-- Every file still has the copy the start-up wrote in directory `roots f`, and is not marked as created
    there. -/
structure Rooted (roots : FilePtr → Text) (s : State) : Prop where
  placed : Placed s
  home : ∀ f ∈ s.fileHead, (s.placement.home f).isSome
  there : ∀ f ∈ s.fileHead, s.fs (roots f) (s.files f).filename ≠ none
  own : ∀ f ∈ s.fileHead, s.contents.created f = true →
    ∀ d, s.placement.home f = some d → (s.dir d) ≠ roots f

variable {roots : FilePtr → Text}

/-- What writes existing files only and moves nobody keeps the copies. -/
theorem Rooted.frame (h : Rooted roots s) (hplaced : Placed s') (hroster : s'.roster = s.roster)
    (hplace : s'.placement = s.placement) (hcreated : s'.contents.created = s.contents.created)
    (hfs : ∀ dir name, s'.fs dir name = none ↔ s.fs dir name = none) : Rooted roots s' := by
  have hfiles : s'.fileHead = s.fileHead := congrArg Roster.fileHead hroster
  have hname : ∀ f, (s'.files f).filename = (s.files f).filename :=
    congrFun (congrArg Roster.filename hroster)
  have hpath : ∀ d, s'.dir d = s.dir d := congrFun (congrArg Roster.dir hroster)
  refine ⟨hplaced, ?_, ?_, ?_⟩
  · rw [hfiles, hplace]
    exact h.home
  · intro f hf hnone
    rw [hname] at hnone
    exact h.there f (hfiles ▸ hf) ((hfs _ _).mp hnone)
  · intro f hf hflag d hd
    rw [hcreated] at hflag
    rw [hplace] at hd
    rw [hpath]
    exact h.own f (hfiles ▸ hf) hflag d hd

/-- **One move keeps the copies**: it deletes only what it created itself. -/
theorem Rooted.assign (h : Rooted roots s) (hf : f ∈ s.fileHead) (hd : d ∈ s.diskHead) (io : MoveIo) :
    Rooted roots (workloadAssignFileToDisk s (some f) (some d) io).2 := by
  obtain ⟨home, hhome⟩ := Option.isSome_iff_exists.mp (h.home f hf)
  obtain ⟨hstay, hmove⟩ := assign_target (d := d) (show (s.files f).assignDisk = some home from hhome) io
  cases htarget : moveTarget s f d io with
  | none =>
      rw [hstay htarget]
      exact h
  | some target =>
      obtain ⟨hdir, hname, hzero, out, hfs, hcreated⟩ := hmove target.1 target.2 htarget
      have hviews := @workloadAssignFileToDisk_views s (some f) (some d) io
      obtain ⟨hfail, -⟩ | ⟨-, hplace⟩ := assign_placement s f d io
      · rw [hzero] at hfail
        exact absurd hfail (by decide)
      have hplaced := (h.placed.move hviews.1 (fun g e hg => hviews.2.2.2.1 ▸ hg) hf hd (Or.inr hplace)).1
      generalize (workloadAssignFileToDisk s (some f) (some d) io).2 = s₁ at hviews hplace hfs hcreated hplaced
      have hfiles : s₁.fileHead = s.fileHead := congrArg Roster.fileHead hviews.1
      have hnames : ∀ g, (s₁.files g).filename = (s.files g).filename :=
        congrFun (congrArg Roster.filename hviews.1)
      have hpaths : ∀ e, s₁.dir e = s.dir e :=
        congrFun (congrArg Roster.dir hviews.1)
      have hhome₁ : s₁.placement.home = Function.update s.placement.home f (some d) := by
        rw [hplace, Placement.move_home]
      refine ⟨hplaced, ?_, ?_, ?_⟩
      · intro g hg
        rw [hhome₁, Function.update_apply]
        split_ifs
        · rfl
        · exact h.home g (hfiles ▸ hg)
      · intro g hg
        rw [hfiles] at hg
        rw [hnames, hfs]
        split_ifs with hold
        · -- only the file moved may lose a copy, and not this one
          obtain ⟨⟨hflag, -⟩, hroot, hsame⟩ := hold
          obtain rfl := h.placed.built.filename_inj hg hf hsame
          exact absurd hroot.symm (h.own g hg hflag home hhome)
        · rw [State.setPath_fs]
          split_ifs
          · exact Option.some_ne_none out
          · exact h.there g hg
      · intro g hg hflag e he
        rw [hfiles] at hg
        rw [hcreated, Function.update_apply] at hflag
        rw [hhome₁, Function.update_apply] at he
        rw [hpaths]
        split_ifs at hflag he with hgf
        · obtain rfl := Option.some.inj he
          intro hroot
          rw [Bool.and_eq_true, Option.isNone_iff_eq_none, hdir, hname, hroot, ← hgf] at hflag
          exact h.there g hg hflag.2
        · exact h.own g hg hflag e he

/-- A file of a relocation. -/
theorem Rooted.relocateFile (h : Rooted roots s) (hf : f ∈ s.fileHead) (io : MoveIo) :
    Rooted roots (relocateFile s f io) := by
  have hplaced := (h.placed.relocateFile io hf).1
  unfold Workload.relocateFile at hplaced ⊢
  cases hplan : (s.files f).reassignDisk with
  | none => exact h
  | some d =>
      rw [hplan] at hplaced
      refine (h.assign hf (h.placed.plan f hf d hplan) io).frame hplaced ?_ ?_ ?_ fun _ _ => Iff.rfl
      · simp
      · simp
      · simp

theorem Rooted.relocate {files : List FilePtr} {ios : FilePtr → MoveIo} (h : Rooted roots s)
    (hfiles : files ⊆ s.fileHead) :
    Rooted roots (files.foldl (fun s f => Workload.relocateFile s f (ios f)) s) := by
  induction files generalizing s with
  | nil => exact h
  | cons f files ih =>
      obtain ⟨hf, hfiles⟩ := List.cons_subset.mp hfiles
      have hhead : (Workload.relocateFile s f (ios f)).fileHead = s.fileHead :=
        congrArg Roster.fileHead relocateFile_views.1
      exact ih (h.relocateFile hf (ios f)) (by rw [hhead]; exact hfiles)

/-- **Step lemma.** -/
theorem Rooted.step {op : Op} (h : Rooted roots s) (hop : Running s op) : Rooted roots (op.run s) := by
  have hplaced : Placed (op.run s) := (h.placed.step hop.configured).1
  obtain ⟨ios, rfl⟩ | ⟨hroster, hplace, hcreated, hfs⟩ := run_moves_nothing hop
  · exact h.relocate (List.Subset.refl _)
  · exact h.frame hplaced hroster hplace hcreated hfs

/-! ## The journal is complete -/

/-- A transfer changes only the file it opened for writing. -/
theorem accessTransfer_changes {io : AccessIo} {dir name : Text}
    (h : (accessTransfer s f d io).2.fs dir name ≠ s.fs dir name) :
    ¬(fakeOff s d = true ∨ s.fs (s.dir d) (s.files f).filename = none ∨ io.opened = false ∨
        accessWrites s io = false) ∧ dir = s.dir d ∧ name = (s.files f).filename := by
  unfold accessTransfer at h
  dsimp only at h
  cases hfile : s.fs (s.dir d) (s.files f).filename with
  | none =>
      rw [hfile] at h
      split_ifs at h <;> exact absurd rfl h
  | some contents =>
      rw [hfile] at h
      dsimp only at h
      by_cases hoff : fakeOff s d = true
      · rw [if_pos hoff] at h
        exact absurd rfl h
      by_cases hopened : io.opened = false
      · rw [if_neg hoff, if_pos hopened] at h
        exact absurd rfl h
      by_cases hread : accessWrites s io = false
      · rw [if_neg hoff, if_neg hopened, if_pos hread] at h
        exact absurd rfl h
      rw [if_neg hoff, if_neg hopened, if_neg hread] at h
      refine ⟨?_, ?_⟩
      · rintro (hoff' | hnone | hopened' | hread')
        · exact hoff hoff'
        · exact nomatch hnone
        · exact hopened hopened'
        · exact hread hread'
      · by_contra hpath
        refine h ?_
        dsimp only
        rw [State.setPath_fs, if_neg hpath]

/-- What differs between two states is gone, or is in the list. -/
def Explains (paths : List (Text × Text)) (s s' : State) : Prop :=
  ∀ dir name, s'.fs dir name = s.fs dir name ∨ s'.fs dir name = none ∨ (dir, name) ∈ paths

theorem Explains.of_fs {paths : List (Text × Text)} (h : s'.fs = s.fs) : Explains paths s s' := fun dir name =>
  Or.inl (congrFun (congrFun h dir) name)

theorem Explains.trans {paths paths' : List (Text × Text)} {s'' : State} (h : Explains paths s s')
    (h' : Explains paths' s' s'') : Explains (paths ++ paths') s s'' := by
  intro dir name
  rcases h' dir name with hsame | hnone | hmem
  · rw [hsame]
    exact (h dir name).imp_right (Or.imp_right (List.mem_append_left _))
  · exact Or.inr (Or.inl hnone)
  · exact Or.inr (Or.inr (List.mem_append_right _ hmem))

theorem accessTarget_covers {io : AccessIo} {dir name : Text}
    (h : (workloadFileAccess s (some f) io).2.fs dir name ≠ s.fs dir name) :
    accessTarget s f io = some (dir, name) := by
  unfold workloadFileAccess at h
  unfold accessTarget
  dsimp only at h
  cases hhome : (s.files f).assignDisk with
  | none =>
      rw [hhome] at h
      exact absurd rfl h
  | some d =>
      rw [hhome] at h
      dsimp only at h ⊢
      by_cases hpath : io.path = false
      · rw [if_pos hpath] at h
        exact absurd rfl h
      rw [if_neg hpath] at h
      have htransfer : (accessTransfer s f d io).2.fs dir name ≠ s.fs dir name := by
        split_ifs at h
        · have hsection : ∀ (s : State) r w, (accessSection s f r w).fs = s.fs := fun s r w =>
            congrArg Contents.fs (accessSection_views (s := s) (f := f) (r := r) (w := w)).2.2.2.1
          dsimp only at h
          rw [hsection] at h
          exact h
        · exact h
      obtain ⟨hopen, rfl, rfl⟩ := accessTransfer_changes htransfer
      rw [if_neg fun hor => hor.elim hpath hopen]

/-- A round of a relocation changes what it opened, or deletes the old copy. -/
theorem relocateFile_explained (hhome : (s.placement.home f).isSome) (io : MoveIo) :
    Explains ((s.files f).reassignDisk.bind fun d => moveTarget s f d io).toList s (relocateFile s f io) := by
  obtain ⟨home, hsome⟩ := Option.isSome_iff_exists.mp hhome
  unfold relocateFile
  cases hplan : (s.files f).reassignDisk with
  | none => exact .of_fs rfl
  | some d =>
      obtain ⟨hstay, hmove⟩ := assign_target (d := d) (show (s.files f).assignDisk = some home from hsome) io
      rw [Option.bind_some]
      cases htarget : moveTarget s f d io with
      | none =>
          refine .of_fs ?_
          dsimp only
          rw [hstay htarget]
          rfl
      | some target =>
          obtain ⟨-, -, -, out, hfs, -⟩ := hmove target.1 target.2 htarget
          intro dir name
          have hafter := hfs dir name
          rw [State.setPath_fs] at hafter
          split_ifs at hafter with hold hpath
          · exact Or.inr (Or.inl hafter)
          · right
            right
            rw [hpath.1, hpath.2]
            exact List.mem_singleton_self _
          · exact Or.inl hafter

/-- A relocation changes what it opened, or deletes. -/
theorem relocateTargets_explained {ios : FilePtr → MoveIo} {files : List FilePtr} (hplaced : Placed s)
    (hhome : ∀ f ∈ s.fileHead, (s.placement.home f).isSome) (hfiles : files ⊆ s.fileHead) :
    Explains (relocateTargets ios files s) s (files.foldl (fun s f => relocateFile s f (ios f)) s) := by
  induction files generalizing s with
  | nil => exact .of_fs rfl
  | cons f files ih =>
      obtain ⟨hf, hfiles⟩ := List.cons_subset.mp hfiles
      have hhead : (relocateFile s f (ios f)).fileHead = s.fileHead :=
        congrArg Roster.fileHead relocateFile_views.1
      obtain ⟨hplaced₁, hkeeps⟩ := hplaced.relocateFile (ios f) hf
      have hhome₁ : ∀ g ∈ (relocateFile s f (ios f)).fileHead,
          ((relocateFile s f (ios f)).placement.home g).isSome := fun g hg =>
        hkeeps g (hhead ▸ hg) (hhome g (hhead ▸ hg))
      exact (relocateFile_explained (hhome f hf) (ios f)).trans
        (ih hplaced₁ hhome₁ (by rw [hhead]; exact hfiles))


/-- A call changes what it wrote, or deletes. -/
theorem Rooted.wrote_explained {op : Op} (h : Rooted roots s) (hop : Running s op) :
    Explains (op.wrote s) s (op.run s) := by
  cases op with
  | access file io =>
      cases file with
      | none => exact .of_fs rfl
      | some f =>
          intro dir name
          by_cases hsame : (workloadFileAccess s (some f) io).2.fs dir name = s.fs dir name
          · exact Or.inl hsame
          · right
            right
            change (dir, name) ∈ (accessTarget s f io).toList
            rw [accessTarget_covers hsame]
            exact List.mem_singleton_self _
  | relocate ios => exact relocateTargets_explained h.placed h.home (List.Subset.refl _)
  | reset => exact .of_fs (congrArg Contents.fs (workloadResetFileAccessCount_views (s := s)).2.2.2.2.1)
  | setRelocate value => exact .of_fs (congrArg Contents.fs (relocateSwitch_views (s := s) (b := value)).2.2.2.2.1)
  | toggleRelocate =>
      exact .of_fs (congrArg Contents.fs (relocateSwitch_views (s := s) (b := !s.relocate)).2.2.2.2.1)
  | tick timeStamp => exact .of_fs rfl
  | _ => exact absurd hop id

/-- **What a run leaves changed it has opened**, or it is gone. -/
theorem journal_explained {ops : List Op} (h : Rooted roots s) (hops : Along Op.run Running s ops) :
    Explains (journal s ops) s (exec Op.run s ops) := by
  induction ops generalizing s with
  | nil => exact .of_fs rfl
  | cons op ops ih =>
      obtain ⟨hop, hops⟩ := hops
      exact (h.wrote_explained hop).trans (ih (h.step hop) hops)

/-! ## The unload -/

/-- The directory was created by a disk service, or lies below one that was. -/
def CreatedByRun (s : State) (dir : Text) : Prop :=
  ∃ d ∈ s.diskHead, ∃ entry, (s.disks d).createdPath = some entry ∧
    (dir = s.directory entry ∨ (s.directory entry ++ ['/']).isPrefixOf dir = true)

/-- The path of the file at the head of the chain, when it carries the created flag. -/
def OwnCopy (s : State) (dir name : Text) : Prop :=
  ∃ f, s.fileHead.head? = some f ∧ (s.files f).created = true ∧
    ∃ d, (s.files f).assignDisk = some d ∧ dir = s.dir d ∧ name = (s.files f).filename

/-- The services that are closed delete nothing in a directory nobody created. -/
theorem closeServices_fs {l : List DiskPtr} {dir : Text} (name : Text) (hl : l ⊆ s.diskHead)
    (hdir : ¬ CreatedByRun s dir) : (l.foldl closeService s).fs dir name = s.fs dir name := by
  suffices h : ∀ t : State, t.directory = s.directory → (∀ d ∈ s.diskHead, ∀ entry,
      (t.disks d).createdPath = some entry → (s.disks d).createdPath = some entry) →
      (l.foldl closeService t).fs dir name = t.fs dir name from
    h s rfl fun _ _ _ h => h
  induction l with
  | nil => exact fun _ _ _ => rfl
  | cons d l ih =>
      intro t hnames ht
      obtain ⟨hd, hl⟩ := List.cons_subset.mp hl
      have hclose : (closeService t d).fs dir name = t.fs dir name ∧
          (closeService t d).directory = t.directory ∧
          ∀ e, ∀ entry, ((closeService t d).disks e).createdPath = some entry →
            (t.disks e).createdPath = some entry := by
        unfold closeService
        cases (t.disks d).service with
        | none => exact ⟨rfl, rfl, fun _ _ h => h⟩
        | some pc =>
            have hdisk : ∀ (x : State) e entry, x.disks = t.disks → ((x.modifyDisk d fun disk =>
                { disk with service := none, createdPath := none }).disks e).createdPath = some entry →
                (t.disks e).createdPath = some entry := by
              intro x e entry hx h
              rw [State.modifyDisk_disks] at h
              split_ifs at h
              rw [← hx]
              exact h
            dsimp only
            cases hentry : (t.disks d).createdPath with
            | none => exact ⟨rfl, rfl, fun e entry h => hdisk t e entry rfl h⟩
            | some entry =>
                refine ⟨?_, rfl, fun e entry' h => hdisk (deleteTree t (t.directory entry)) e entry' rfl h⟩
                change (if dir = t.directory entry ∨ (t.directory entry ++ ['/']).isPrefixOf dir then none
                  else t.fs dir name) = _
                rw [hnames, if_neg fun hbelow => hdir ⟨d, hd, entry, ht d hd entry hentry, hbelow⟩]
      rw [List.foldl_cons, ih hl (closeService t d) (hclose.2.1.trans hnames) fun e he entry h =>
        ht e he entry (hclose.2.2 e entry h)]
      exact hclose.1

theorem deassign_freed (io : DeassignIo) : (workloadDeassignFile s f io).2.freed = s.freed := by
  have hnext : ∀ s, (bypassNext s f).freed = s.freed := by
    intro s
    unfold bypassNext
    cases (s.files f).assignNext <;> rfl
  have hprev : ∀ s d, (bypassPrev s f d).freed = s.freed := by
    intro s d
    unfold bypassPrev
    cases (s.files f).assignPrev <;> rfl
  have hunlink : ∀ s d, (unlinkFile s f d).freed = s.freed := fun s d =>
    (hprev (bypassNext s f) d).trans (hnext s)
  unfold workloadDeassignFile
  cases (s.files f).assignDisk with
  | none => rfl
  | some d =>
      refine (hunlink _ d).trans ?_
      unfold deleteCreated
      split_ifs <;> rfl

/-- What releasing the head of the chain deletes. -/
theorem freeHead_fs (io : DeassignIo) (dir name : Text) :
    (workloadFreeFile s s.fileHead.head? io).fs dir name = none ∧
        (OwnCopy s dir name ∧ io.path = true ∧ io.delete = true) ∨
      (workloadFreeFile s s.fileHead.head? io).fs dir name = s.fs dir name ∧
        ¬(OwnCopy s dir name ∧ io.path = true ∧ io.delete = true) := by
  cases hhead : s.fileHead.head? with
  | none =>
      refine Or.inr ⟨rfl, ?_⟩
      rintro ⟨⟨f, hf, -⟩, -⟩
      exact nomatch hhead.symm.trans hf
  | some f =>
      unfold workloadFreeFile workloadDeassignFile
      dsimp only
      cases hhome : (s.files f).assignDisk with
      | none =>
          refine Or.inr ⟨rfl, ?_⟩
          rintro ⟨⟨g, hg, -, d, hd, -⟩, -⟩
          obtain rfl := Option.some.inj (hhead.symm.trans hg)
          exact nomatch hhome.symm.trans hd
      | some d =>
          have hfs : (unlinkFile (deleteCreated s f d io) f d).fs dir name =
              (deleteCreated s f d io).fs dir name := by
            have hcontents := (unlinkFile_views (s := deleteCreated s f d io) (f := f) (d := d)).2.2.2.2.1
            exact congrFun (congrFun (congrArg Contents.fs hcontents) dir) name
          have hown : OwnCopy s dir name ↔
              (s.files f).created = true ∧ dir = s.dir d ∧ name = (s.files f).filename := by
            constructor
            · rintro ⟨g, hg, hcreated, e, he, hpath⟩
              obtain rfl := Option.some.inj (hhead.symm.trans hg)
              obtain rfl := Option.some.inj (hhome.symm.trans he)
              exact ⟨hcreated, hpath⟩
            · rintro ⟨hcreated, hpath⟩
              exact ⟨f, hhead, hcreated, d, hhome, hpath⟩
          dsimp only
          rw [hfs, deleteCreated_fs, hown]
          split_ifs with hdelete
          · exact Or.inl ⟨rfl, ⟨hdelete.1.1, hdelete.2⟩, hdelete.1.2⟩
          · exact Or.inr ⟨rfl, fun h => hdelete ⟨⟨h.1.1, h.2⟩, h.1.2⟩⟩

/-- The unload, by its stages. -/
theorem unload_stages (s : State) (io : DeassignIo) : ∃ s₁ s₃ : State,
    (OwnCopy s₁ = OwnCopy s ∧ s₁.fs = s.fs ∧ s₁.fileHead = s.fileHead ∧ s₁.diskHead = s.diskHead ∧
      s₁.disks = s.disks ∧ s₁.files = s.files ∧ s₁.freed = s.freed ∧ s₁.directory = s.directory) ∧
    (s₃.fs = (workloadFreeFile s₁ s₁.fileHead.head? io).fs ∧
      s₃.files = (workloadFreeFile s₁ s₁.fileHead.head? io).files ∧
      s₃.freed = (workloadFreeFile s₁ s₁.fileHead.head? io).freed ∧
      s₃.disks = (workloadFreeFile s₁ s₁.fileHead.head? io).disks ∧
      s₃.diskHead = (workloadFreeFile s₁ s₁.fileHead.head? io).diskHead ∧
      s₃.directory = (workloadFreeFile s₁ s₁.fileHead.head? io).directory) ∧
    (workloadUnloadConfig s io).fs = (s₃.diskHead.foldl closeService s₃).fs ∧
    (workloadUnloadConfig s io).files = (s₃.diskHead.foldl closeService s₃).files ∧
    (workloadUnloadConfig s io).freed = (s₃.diskHead.foldl closeService s₃).freed := by
  refine ⟨workloadFreeFileArray { s with nextFileIndex := none },
    workloadFreeDiskArray { workloadFreeFile (workloadFreeFileArray { s with nextFileIndex := none })
      (workloadFreeFileArray { s with nextFileIndex := none }).fileHead.head? io with fileHead := [] },
    ?_, ?_, rfl, rfl, rfl⟩
  · unfold workloadFreeFileArray
    split_ifs <;> exact ⟨rfl, rfl, rfl, rfl, rfl, rfl, rfl, rfl⟩
  · unfold workloadFreeDiskArray
    split_ifs <;> exact ⟨rfl, rfl, rfl, rfl, rfl, rfl⟩

/-- **What an unload deletes** in a directory that nobody created: the file at the head of the chain, when it
    carries the created flag. -/
theorem unload_fs (io : DeassignIo) {dir name : Text} (hdir : ¬ CreatedByRun s dir) :
    (workloadUnloadConfig s io).fs dir name = none ∧
        (OwnCopy s dir name ∧ io.path = true ∧ io.delete = true) ∨
      (workloadUnloadConfig s io).fs dir name = s.fs dir name ∧
        ¬(OwnCopy s dir name ∧ io.path = true ∧ io.delete = true) := by
  obtain ⟨s₁, s₃, ⟨hown, hfs₁, hhead, hdisks₁, hheap₁, -, -, hnames₁⟩,
    ⟨hfs₃, -, -, hheap₃, hdisks₃, hnames₃⟩, hfs, -⟩ := unload_stages s io
  have hviews : (workloadFreeFile s₁ s₁.fileHead.head? io).diskHead = s₁.diskHead ∧
      (workloadFreeFile s₁ s₁.fileHead.head? io).directory = s₁.directory ∧
      ∀ d, ((workloadFreeFile s₁ s₁.fileHead.head? io).disks d).createdPath = (s₁.disks d).createdPath := by
    cases s₁.fileHead.head? with
    | none => exact ⟨rfl, rfl, fun _ => rfl⟩
    | some f =>
        have hviews := @workloadDeassignFile_views s₁ f io
        exact ⟨congrArg Roster.diskHead hviews.1, congrArg Roster.directory hviews.1,
          congrFun (congrArg Threads.createdPath hviews.2.2.2.2.2)⟩
  have hnames : s₃.directory = s.directory := hnames₃.trans (hviews.2.1.trans hnames₁)
  have hdir₃ : ¬ CreatedByRun s₃ dir := by
    rintro ⟨d, hd, entry, hentry, hbelow⟩
    rw [hdisks₃, hviews.1, hdisks₁] at hd
    rw [hheap₃, hviews.2.2, hheap₁] at hentry
    rw [hnames] at hbelow
    exact hdir ⟨d, hd, entry, hentry, hbelow⟩
  have hclosed := closeServices_fs name (List.Subset.refl _) hdir₃
  rw [hfs, hclosed, hfs₃, ← hown, ← hfs₁]
  exact freeHead_fs io dir name

/-- Closing the services leaves the file objects alone. -/
theorem closeServices_files (l : List DiskPtr) (s : State) :
    (l.foldl closeService s).files = s.files ∧ (l.foldl closeService s).freed = s.freed := by
  have hclose : ∀ (s : State) d, (closeService s d).files = s.files ∧ (closeService s d).freed = s.freed := by
    intro s d
    unfold closeService
    cases (s.disks d).service with
    | none => exact ⟨rfl, rfl⟩
    | some pc =>
        dsimp only
        cases (s.disks d).createdPath <;> exact ⟨rfl, rfl⟩
  exact ⟨foldl_keeps (p := State.files) (fun s d => (hclose s d).1) l s,
    foldl_keeps (p := State.freed) (fun s d => (hclose s d).2) l s⟩

/-- **What an unload releases**: the file object at the head of the chain, if there is one. -/
theorem unload_frees (s : State) (io : DeassignIo) :
    (workloadUnloadConfig s io).freed = s.freed ++ s.fileHead.head?.toList := by
  obtain ⟨s₁, s₃, ⟨-, -, hfiles, -, -, -, hfreed₁, -⟩, ⟨-, -, hfreed₃, -⟩, -, -, hclosed⟩ := unload_stages s io
  rw [hclosed, (closeServices_files _ _).2, hfreed₃, ← hfreed₁, ← hfiles]
  cases s₁.fileHead.head? with
  | none => exact (List.append_nil _).symm
  | some f =>
      have hkept : (workloadDeassignFile s₁ f io).2.freed = s₁.freed := deassign_freed io
      exact congrArg (· ++ [f]) hkept

/-- The file at the head of the chain leaves its disk. -/
theorem unload_deassigns {io : DeassignIo} (hhead : s.fileHead.head? = some f) :
    ((workloadUnloadConfig s io).files f).assignDisk = none := by
  obtain ⟨s₁, s₃, ⟨-, -, hfiles, -⟩, ⟨-, hheap, -⟩, -, hclosed, -⟩ := unload_stages s io
  rw [hclosed, (closeServices_files _ _).1, hheap, hfiles, hhead]
  have hleave := congrFun (congrArg Placement.home (deassign_placement s₁ f io).2) f
  refine hleave.trans ?_
  unfold Placement.leave
  cases hhome : s₁.placement.home f with
  | none => exact hhome
  | some d => exact Function.update_self ..

/-! ## Complete, and as configured -/

/-- What the clean-up of the paths `written` is to achieve: every file object of the chain is deassigned and
    released; in the directories nobody created, the data files go when they are to be removed and stay when not. -/
structure CleanedUp (written : List (Text × Text)) (s : State) (io : DeassignIo) : Prop where
  released : (workloadUnloadConfig s io).freed = s.freed ++ s.fileHead
  deassigned : ∀ f ∈ s.fileHead, ((workloadUnloadConfig s io).files f).assignDisk = none
  removed : s.cfg.filesRemove ≠ 0 → ∀ p ∈ written, ¬ CreatedByRun s p.1 →
    (workloadUnloadConfig s io).fs p.1 p.2 = none
  kept : s.cfg.filesRemove = 0 → ∀ p ∈ written, ¬ CreatedByRun s p.1 → s.fs p.1 p.2 ≠ none →
    (workloadUnloadConfig s io).fs p.1 p.2 ≠ none

/-- There is at most one file, and of the data files found in the directories nobody created, its current copy
    is the only one with the created flag: all of them when they are to be removed, none when not. -/
structure FlagAgrees (written : List (Text × Text)) (s : State) (io : DeassignIo) : Prop where
  single : s.fileHead.length ≤ 1
  flagged : s.cfg.filesRemove ≠ 0 → ∀ p ∈ written, ¬ CreatedByRun s p.1 → s.fs p.1 p.2 ≠ none →
    OwnCopy s p.1 p.2 ∧ io.path = true ∧ io.delete = true
  unflagged : s.cfg.filesRemove = 0 → ∀ p ∈ written, ¬ CreatedByRun s p.1 → s.fs p.1 p.2 ≠ none →
    ¬(OwnCopy s p.1 p.2 ∧ io.path = true ∧ io.delete = true)

theorem head_toList_iff {l : List FilePtr} : l.head?.toList = l ↔ l.length ≤ 1 := by
  rcases l with _ | ⟨f, _ | ⟨g, l⟩⟩ <;> simp

/-- **All objects are released** exactly when there is at most one. -/
theorem released_iff (s : State) (io : DeassignIo) :
    (workloadUnloadConfig s io).freed = s.freed ++ s.fileHead ↔ s.fileHead.length ≤ 1 := by
  rw [unload_frees, List.append_cancel_left_eq, head_toList_iff]

theorem cleanedUp_iff (written : List (Text × Text)) (s : State) (io : DeassignIo) :
    CleanedUp written s io ↔ FlagAgrees written s io := by
  constructor
  · intro h
    refine ⟨(released_iff s io).mp h.released, fun hremove p hp hdir hthere => ?_, fun hremove p hp hdir hthere => ?_⟩
    · rcases unload_fs io hdir with ⟨-, hown⟩ | ⟨hsame, -⟩
      · exact hown
      · exact absurd (hsame.symm.trans (h.removed hremove p hp hdir)) hthere
    · rcases unload_fs io hdir with ⟨hgone, -⟩ | ⟨-, hnot⟩
      · exact absurd hgone (h.kept hremove p hp hdir hthere)
      · exact hnot
  · intro h
    refine ⟨(released_iff s io).mpr h.single, fun f hf => unload_deassigns ?_, fun hremove p hp hdir => ?_,
      fun hremove p hp hdir hthere => ?_⟩
    · rw [← head_toList_iff.mpr h.single] at hf
      exact Option.mem_toList.mp hf
    · rcases unload_fs io hdir with ⟨hgone, -⟩ | ⟨hsame, hnot⟩
      · exact hgone
      · by_contra hthere
        exact hnot (h.flagged hremove p hp hdir (hsame ▸ hthere))
    · rcases unload_fs io hdir with ⟨-, hown⟩ | ⟨hsame, -⟩
      · exact absurd hown (h.unflagged hremove p hp hdir hthere)
      · rw [hsame]
        exact hthere

/-- The paths the start-up and a run have opened for writing. -/
def written (s : State) (ops : List Op) : List (Text × Text) := startPaths s ++ journal s ops

/-- A loaded file has its start-up copy in the directory of its disk. -/
theorem Loaded.rooted (hs : Loaded s) :
    Rooted (fun f => s.dir ((s.placement.home f).getD 0)) s := by
  refine ⟨hs.kept.placed, hs.home, fun f hf => ?_, fun f hf hflag => ?_⟩
  · obtain ⟨d, hd⟩ := Option.isSome_iff_exists.mp (hs.home f hf)
    rw [hd]
    exact hs.there f hf d hd
  · have hnew : s.contents.created f = false := hs.created f hf
    exact absurd (hnew.symm.trans hflag) Bool.false_ne_true

/-- **Every data file the run left behind is listed.** -/
theorem written_covers {env : LoadEnv} {s₀ : State} (hidle : Idle s₀)
    (hload : workloadLoadConfig env s₀ = some (0, s)) {ops : List Op} (hops : Along Op.run Running s ops)
    {dir name : Text} (hthere : (exec Op.run s ops).fs dir name ≠ none)
    (hnew : (exec Op.run s ops).fs dir name ≠ s₀.fs dir name) : (dir, name) ∈ written s ops := by
  obtain ⟨hloaded, hwrote⟩ := workloadLoadConfig_ok hidle hload
  by_cases hsame : (exec Op.run s ops).fs dir name = s.fs dir name
  · obtain hold | ⟨f, hf, d, hd, rfl, rfl⟩ := hwrote dir name
    · exact absurd (hsame.trans hold) hnew
    · refine List.mem_append_left _ (List.mem_filterMap.mpr ⟨f, hf, ?_⟩)
      rw [show (s.files f).assignDisk = some d from hd]
      rfl
  · rcases journal_explained hloaded.rooted hops dir name with hkept | hnone | hmem
    · exact absurd hkept hsame
    · exact absurd hnone hthere
    · exact List.mem_append_right _ hmem

/-- **The clean-up does what the settings say exactly when there is at most one file and its created flag agrees
    with them.** The list of written paths misses no data file the run leaves behind. A start-up file in a directory
    that was there before never has the flag: with `remove` set it is always left behind. -/
theorem unload_cleans_up {env : LoadEnv} {s₀ : State} (hidle : Idle s₀)
    (hload : workloadLoadConfig env s₀ = some (0, s)) {ops : List Op} (hops : Along Op.run Running s ops)
    (io : DeassignIo) :
    (CleanedUp (written s ops) (exec Op.run s ops) io ↔ FlagAgrees (written s ops) (exec Op.run s ops) io) ∧
    (∀ dir name, (exec Op.run s ops).fs dir name ≠ none → (exec Op.run s ops).fs dir name ≠ s₀.fs dir name →
      (dir, name) ∈ written s ops) ∧
    ((exec Op.run s ops).cfg.filesRemove ≠ 0 →
      (∃ p ∈ startPaths s, ¬ CreatedByRun (exec Op.run s ops) p.1) →
        ¬ CleanedUp (written s ops) (exec Op.run s ops) io) := by
  refine ⟨cleanedUp_iff .., fun dir name => written_covers hidle hload hops, ?_⟩
  rintro hremove ⟨p, hp, hdir⟩ hclean
  obtain ⟨hloaded, -⟩ := workloadLoadConfig_ok hidle hload
  have hrooted := exec_invariant (fun _ _ h hop => h.step hop) hloaded.rooted hops
  have hkept := exec_invariant (fun _ _ h hop => h.step hop) hloaded.kept hops
  obtain ⟨f, hf, hpath⟩ := List.mem_filterMap.mp hp
  obtain ⟨d, hd⟩ := Option.isSome_iff_exists.mp (hloaded.home f hf)
  rw [show (s.files f).assignDisk = some d from hd] at hpath
  obtain rfl := Option.some.inj hpath
  generalize hu : exec Op.run s ops = u at hremove hdir hclean hrooted hkept
  have hfu : f ∈ u.fileHead := by
    rw [show u.fileHead = s.fileHead from congrArg Roster.fileHead hkept.roster]
    exact hf
  have hname : (u.files f).filename = (s.files f).filename :=
    congrFun (congrArg Roster.filename hkept.roster) f
  have hpathu : u.dir d = s.dir d := congrFun (congrArg Roster.dir hkept.roster) d
  -- the copy is still there, and it is not the one the flag stands for
  have hthere : u.fs (s.dir d) (s.files f).filename ≠ none := by
    have hroot := hrooted.there f hfu
    rw [hd, hname] at hroot
    exact hroot
  obtain ⟨⟨g, hg, hflag, e, he, hdir', hname'⟩, -⟩ := ((cleanedUp_iff _ u io).mp hclean).flagged hremove
    (s.dir d, (s.files f).filename) (List.mem_append_left _ hp) hdir hthere
  have hgu : g ∈ u.fileHead := List.mem_of_mem_head? hg
  obtain rfl : f = g := hkept.placed.built.filename_inj hfu hgu (hname.trans hname')
  have hother := hrooted.own f hfu hflag e he
  rw [hd] at hother
  exact hother hdir'.symm

/-- One file on the existing directory `a`, and `remove` off. -/
def keptDocument : Xml :=
  let leaf (name text : String) : Xml := .element name.toList [] text.toList []
  let node (name : String) (children : List Xml) : Xml := .element name.toList [] [] children
  let operation := node "operation"
    [.element "files".toList [("remove".toList, "no".toList)] "1".toList [], leaf "filesize" "1"]
  node "workload" [node "config" [operation, node "storage" [node "disk" [leaf "path" "a"]]]]

theorem kept_fits : keptDocument.size < 2 ^ 20 := by decide

def keptEnv : LoadEnv :=
  { smallEnv [] small_fits none with
    openXml := fun _ => some ⟨keptDocument, kept_fits⟩
    rand := fun _ => 0
    events := List.replicate 6 (.service 0 smallService) ++ [.poll false] }

@[irreducible] def keptLoaded : State :=
  ((workloadLoadConfig keptEnv smallStart).map Prod.snd).getD smallStart

theorem kept_loads : workloadLoadConfig keptEnv smallStart = some (0, keptLoaded) := by
  unfold keptLoaded
  exact load_eq_of_zero (by decide +kernel)

/-- A write and a read of the one file. -/
def keptCalls : List Op := [.access (some 0) (smallAccess 1), .access (some 0) (smallAccess 0)]

/-- The one file is released, and its data file is listed and stays. -/
theorem unload_cleans_up_small :
    CleanedUp (written keptLoaded keptCalls) (exec Op.run keptLoaded keptCalls) ⟨true, true⟩ ∧
      ("a".toList, "(null)1(null)".toList) ∈ written keptLoaded keptCalls := by
  have hcalls : Along Op.run Running keptLoaded keptCalls := by
    refine ⟨?_, ?_, trivial⟩
    · show 0 ∈ keptLoaded.fileHead
      decide +kernel
    · show 0 ∈ (Op.run keptLoaded (.access (some 0) (smallAccess 1))).fileHead
      decide +kernel
  obtain ⟨hiff, hcovers, -⟩ := unload_cleans_up (idle_init _ _ _ _) kept_loads hcalls ⟨true, true⟩
  constructor
  · refine hiff.mpr ⟨by decide +kernel, fun hremove => absurd hremove (by decide +kernel), ?_⟩
    rintro - p - - - ⟨⟨f, hf, hflag, -⟩, -⟩
    have hhead : (exec Op.run keptLoaded keptCalls).fileHead.head? = some 0 := by decide +kernel
    obtain rfl : 0 = f := Option.some.inj (hhead.symm.trans hf)
    revert hflag
    decide +kernel
  · exact hcovers _ _ (by decide +kernel) (by decide +kernel)

/-- **Files are left behind**: with `remove` set, in directories nobody created, the start-up files of the small
    configuration are still there after the unload, and the second file object is neither deassigned nor
    released. -/
theorem unload_leaves_files :
    smallLoaded.cfg.filesRemove ≠ 0 ∧ (∀ d ∈ smallLoaded.diskHead, (smallLoaded.disks d).createdPath = none) ∧
    (∀ p ∈ startPaths smallLoaded, (workloadUnloadConfig smallLoaded ⟨true, true⟩).fs p.1 p.2 ≠ none) ∧
    startPaths smallLoaded ≠ [] ∧ smallLoaded.fileHead = [0, 1] ∧
    (workloadUnloadConfig smallLoaded ⟨true, true⟩).freed = [0] ∧
    ((workloadUnloadConfig smallLoaded ⟨true, true⟩).files 1).assignDisk ≠ none ∧
    ¬ CleanedUp (written smallLoaded []) smallLoaded ⟨true, true⟩ := by
  refine ⟨by decide +kernel, by decide +kernel, by decide +kernel, by decide +kernel, by decide +kernel,
    by decide +kernel, by decide +kernel, fun h => ?_⟩
  have hreleased := h.released
  revert hreleased
  decide +kernel

end Workload
