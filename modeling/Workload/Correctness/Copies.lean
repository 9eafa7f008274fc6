import Workload.Correctness.Tiering

/-!
# `Correctness.Copies` — which disks hold a data file

A move copies the file and then deletes the old copy, but only one that carries the created flag. The start-up
writer does not set that flag, so the copy it wrote on the first disk of a file, its *origin*, stays there for
good. `Copies` is the invariant: a file exists on its disk and on its origin, and the flag is set exactly when
these are two disks.

**Main result.** `moved_not_copied`: from a load on, every file exists on its own disk only, in every state,
exactly when no relocation finds a file that is planned for another disk.
-/

namespace Workload

open Trace

/-! ## File names -/

/-- `%u` prints different numbers differently. -/
theorem formatUnsigned_injective : Function.Injective formatUnsigned := by
  intro m n h
  have hread := congrArg (fun digits => Nat.ofDigitChars 10 digits 0) h
  simpa only [formatUnsigned, Nat.ofDigitChars_ten_toDigits] using hread

/-- Different files have different names. -/
theorem Roster.Built.filename_inj {r : Roster} (h : r.Built) {f g : FilePtr} (hf : f ∈ r.fileHead)
    (hg : g ∈ r.fileHead) (hname : r.filename f = r.filename g) : f = g := by
  obtain ⟨i, hi⟩ := List.getElem?_of_mem hf
  obtain ⟨j, hj⟩ := List.getElem?_of_mem hg
  rw [h.filename i f hi, h.filename j g hj] at hname
  have hdigits := List.append_cancel_left (List.append_cancel_right hname)
  have hij : i = j := Nat.succ.inj (formatUnsigned_injective hdigits)
  rw [hij, hj] at hi
  exact (Option.some.inj hi).symm

/-! ## What a move does to the directories -/

/-- Every file operation of the move succeeds. -/
structure MoveIo.Succeeds (io : MoveIo) : Prop where
  fromPath : io.fromPath = true
  fromOpen : io.fromOpen = true
  toPath : io.toPath = true
  toExcl : io.toExcl = true
  toTrunc : io.toTrunc = true
  path : io.deassign.path = true
  delete : io.deassign.delete = true

variable {s s' : State} {f : FilePtr} {d home : DiskPtr} {io : MoveIo}

theorem contents_modifyFile_eq (s : State) (f : FilePtr) (g : File → File) :
    (s.modifyFile f g).contents =
      ⟨s.fs, Function.update s.contents.created f (g (s.files f)).created⟩ := by
  refine Contents.ext rfl ?_
  funext x
  simp only [State.contents, State.modifyFile_files, Function.update_apply]
  split_ifs <;> rfl

/-- A file of its own making is deleted, and no flag is left behind. -/
theorem deleteCreated_contents {io : DeassignIo} (hpath : io.path = true) (hdelete : io.delete = true) :
    (deleteCreated s f home io).contents =
      ⟨if (s.files f).created then (s.setPath (s.dir home) (s.files f).filename none).fs else s.fs,
        Function.update s.contents.created f false⟩ := by
  unfold deleteCreated
  rw [hpath, hdelete]
  cases hcreated : (s.files f).created with
  | true =>
      simp only [and_self, if_true]
      rw [contents_modifyFile_eq]
      rfl
  | false =>
      simp only [Bool.false_eq_true, false_and, if_false]
      have hsame : s.contents.created f = false := hcreated
      rw [Function.update_eq_self_iff.mpr hsame.symm]
      rfl

/-- `__workload_move_assign_file` runs through: the target is written, the file is taken off its disk. -/
theorem move_eq (hhome : (s.files f).assignDisk = some home) (hio : io.Succeeds) (hthere : There s home f) :
    ∃ out, workloadMoveAssignFile s f d io =
      (0, (workloadDeassignFile ((s.setPath (s.dir d) (s.files f).filename (some [])).setPath
        (s.dir d) (s.files f).filename (some out)) f io.deassign).2.modifyFile f fun file =>
          { file with created := (s.fs (s.dir d) (s.files f).filename).isNone }) := by
  have hfromPath : ¬io.fromPath = false := by
    rw [hio.fromPath]
    decide
  have hfrom : ¬(io.fromOpen = false ∨ s.fs (s.dir home) (s.files f).filename = none) := by
    rintro (hopen | hnone)
    · exact Bool.noConfusion (hopen.symm.trans hio.fromOpen)
    · exact hthere hnone
  have htoPath : ¬io.toPath = false := by
    rw [hio.toPath]
    decide
  have hopen : ¬((io.toExcl && (s.fs (s.dir d) (s.files f).filename).isNone) = false ∧
      io.toTrunc = false) := by
    rw [hio.toTrunc]
    exact fun h => Bool.noConfusion h.2
  have hok : ¬(0 : Int) = -1 := by decide
  unfold workloadMoveAssignFile
  rw [hhome]
  dsimp only
  rw [if_neg hfromPath, if_neg hfrom, if_neg htoPath, if_neg hopen,
    (deassign_placement _ f io.deassign).1, if_neg hok, hio.toExcl, Bool.true_and]
  exact ⟨_, rfl⟩

/-- **A move that succeeds**: the target directory has the file, the old one loses it when the file carries
    the flag, and the flag is set when the target did not have it. -/
theorem assign_contents (hhome : (s.files f).assignDisk = some home) (hne : home ≠ d)
    (hio : io.Succeeds) (hthere : There s home f) :
    (workloadAssignFileToDisk s (some f) (some d) io).1 = 0 ∧
      ∃ out, (workloadAssignFileToDisk s (some f) (some d) io).2.contents =
        ⟨if (s.files f).created then
            ((s.setPath (s.dir d) (s.files f).filename (some out)).setPath (s.dir home)
              (s.files f).filename none).fs
          else (s.setPath (s.dir d) (s.files f).filename (some out)).fs,
          Function.update s.contents.created f (s.fs (s.dir d) (s.files f).filename).isNone⟩ := by
  have hsome : ¬some home = some d := fun h => hne (Option.some.inj h)
  obtain ⟨out, hmove⟩ := move_eq (d := d) hhome hio hthere
  unfold workloadAssignFileToDisk
  dsimp only
  rw [hhome, if_neg hsome, hmove]
  dsimp only
  rw [if_pos rfl]
  refine ⟨rfl, out, ?_⟩
  -- the target is opened, then written: only the second write is left
  have htwice : (s.setPath (s.dir d) (s.files f).filename (some [])).setPath
      (s.dir d) (s.files f).filename (some out) =
        s.setPath (s.dir d) (s.files f).filename (some out) := by
    simp [State.setPath]
  rw [assignedSection_views.2.2.2.2.2.1, linkFile_views.2.2.2.2.1, contents_modifyFile_eq, htwice]
  generalize hs₁ : s.setPath (s.dir d) (s.files f).filename (some out) = s₁
  have hhome₁ : (s₁.files f).assignDisk = some home := by
    rw [← hs₁]
    exact hhome
  have hdeassign : (workloadDeassignFile s₁ f io.deassign).2.contents =
      ⟨if (s₁.files f).created then (s₁.setPath (s₁.dir home) (s₁.files f).filename none).fs
        else s₁.fs, Function.update s₁.contents.created f false⟩ := by
    unfold workloadDeassignFile
    rw [hhome₁]
    exact unlinkFile_views.2.2.2.2.1.trans (deleteCreated_contents hio.path hio.delete)
  refine Contents.ext ?_ ?_
  · have hfs := congrArg Contents.fs hdeassign
    refine hfs.trans ?_
    rw [← hs₁]
    rfl
  · have hcreated := congrArg Contents.created hdeassign
    show Function.update (workloadDeassignFile s₁ f io.deassign).2.contents.created f _ = _
    rw [hcreated, Function.update_idem, ← hs₁]
    rfl

/-! ## The invariant -/

/-- A file exists on its disk and on its origin; the flag tells whether these are two. -/
structure Copies (origin : FilePtr → DiskPtr) (s : State) : Prop where
  placed : Placed s
  home : ∀ f ∈ s.fileHead, (s.placement.home f).isSome
  originDisk : ∀ f ∈ s.fileHead, origin f ∈ s.diskHead
  dirs : ∀ d ∈ s.diskHead, ∀ e ∈ s.diskHead, s.roster.dir d = s.roster.dir e → d = e
  there : ∀ f ∈ s.fileHead, ∀ d ∈ s.diskHead, There s d f ↔ s.placement.home f = some d ∨ origin f = d
  created : ∀ f ∈ s.fileHead, s.contents.created f = true ↔ s.placement.home f ≠ some (origin f)

variable {origin : FilePtr → DiskPtr}

/-- What writes existing files only and moves nobody keeps the invariant. -/
theorem Copies.frame (h : Copies origin s) (hplaced : Placed s') (hroster : s'.roster = s.roster)
    (hplace : s'.placement = s.placement) (hcreated : s'.contents.created = s.contents.created)
    (hfs : ∀ dir name, s'.fs dir name = none ↔ s.fs dir name = none) : Copies origin s' := by
  have hfiles : s'.fileHead = s.fileHead := congrArg Roster.fileHead hroster
  have hdisks : s'.diskHead = s.diskHead := congrArg Roster.diskHead hroster
  have hthere : ∀ d f, There s' d f ↔ There s d f := by
    intro d f
    have hdir : s'.dir d = s.dir d := congrFun (congrArg Roster.dir hroster) d
    have hname : (s'.files f).filename = (s.files f).filename :=
      congrFun (congrArg Roster.filename hroster) f
    unfold There
    rw [hdir, hname]
    exact not_congr (hfs _ _)
  refine ⟨hplaced, ?_, ?_, ?_, ?_, ?_⟩
  · rw [hfiles, hplace]
    exact h.home
  · rw [hfiles, hdisks]
    exact h.originDisk
  · rw [hdisks, hroster]
    exact h.dirs
  · intro f hf d hd
    rw [hthere, hplace]
    exact h.there f (hfiles ▸ hf) d (hdisks ▸ hd)
  · rw [hfiles, hcreated, hplace]
    exact h.created

/-- The directories behind a move that succeeds. -/
theorem fs_moved {out : Bytes}
    (hfs : s'.fs = if (s.files f).created then
        ((s.setPath (s.dir d) (s.files f).filename (some out)).setPath (s.dir home)
          (s.files f).filename none).fs
      else (s.setPath (s.dir d) (s.files f).filename (some out)).fs) (dir name : Text) :
    s'.fs dir name ≠ none ↔
      ¬(s.contents.created f = true ∧ dir = s.dir home ∧ name = (s.files f).filename) ∧
        ((dir = s.dir d ∧ name = (s.files f).filename) ∨ s.fs dir name ≠ none) := by
  have hflag : s.contents.created f = (s.files f).created := rfl
  rw [hfs, hflag]
  cases (s.files f).created with
  | true =>
      rw [if_pos rfl, State.setPath_fs, State.setPath_fs]
      split_ifs with hold hnew
      · exact ⟨fun h => absurd rfl h, fun h => absurd ⟨rfl, hold⟩ h.1⟩
      · exact ⟨fun _ => ⟨fun h => hold h.2, Or.inl hnew⟩, fun _ => Option.some_ne_none out⟩
      · exact ⟨fun h => ⟨fun h' => hold h'.2, Or.inr h⟩, fun h => h.2.resolve_left hnew⟩
  | false =>
      rw [if_neg Bool.false_ne_true, State.setPath_fs]
      split_ifs with hnew
      · exact ⟨fun _ => ⟨fun h => h.1.elim, Or.inl hnew⟩, fun _ => Option.some_ne_none out⟩
      · exact ⟨fun h => ⟨fun h' => h'.1.elim, Or.inr h⟩, fun h => h.2.resolve_left hnew⟩

/-- **One move keeps the invariant**: with the flag the old copy goes, without it the old copy is the origin. -/
theorem Copies.assign (h : Copies origin s) (hf : f ∈ s.fileHead) (hd : d ∈ s.diskHead)
    (hio : io.Succeeds) :
    (workloadAssignFileToDisk s (some f) (some d) io).1 = 0 ∧
      Copies origin (workloadAssignFileToDisk s (some f) (some d) io).2 := by
  obtain ⟨home, hhome⟩ := Option.isSome_iff_exists.mp (h.home f hf)
  have hassign : (s.files f).assignDisk = some home := hhome
  by_cases hne : home = d
  · have hsame : workloadAssignFileToDisk s (some f) (some d) io = (0, s) := by
      unfold workloadAssignFileToDisk
      dsimp only
      rw [hassign, hne, if_pos rfl]
    rw [hsame]
    exact ⟨rfl, h⟩
  obtain ⟨seats, hseats⟩ := h.placed.seated
  have hhomeDisk : home ∈ s.diskHead := hseats.target f hf home hhome
  have hhomeThere : There s home f := (h.there f hf home hhomeDisk).mpr (Or.inl hhome)
  obtain ⟨hzero, out, hcontents⟩ := assign_contents (d := d) hassign hne hio hhomeThere
  have hviews := @workloadAssignFileToDisk_views s (some f) (some d) io
  obtain ⟨hfail, -⟩ | ⟨-, hplace⟩ := assign_placement s f d io
  · rw [hzero] at hfail
    exact absurd hfail (by decide)
  have hplaced : Placed (workloadAssignFileToDisk s (some f) (some d) io).2 :=
    (h.placed.move hviews.1 (fun g e hg => hviews.2.2.2.1 ▸ hg) hf hd (Or.inr hplace)).1
  refine ⟨hzero, ?_⟩
  generalize (workloadAssignFileToDisk s (some f) (some d) io).2 = s₁ at hcontents hviews hplace hplaced
  have hroster : s₁.roster = s.roster := hviews.1
  have hfiles : s₁.fileHead = s.fileHead := congrArg Roster.fileHead hroster
  have hdisks : s₁.diskHead = s.diskHead := congrArg Roster.diskHead hroster
  have hhome₁ : s₁.placement.home = Function.update s.placement.home f (some d) := by
    rw [hplace, Placement.move_home]
  have hcreated₁ : s₁.contents.created = _ := congrArg Contents.created hcontents
  have hdir : ∀ e, s₁.dir e = s.dir e := congrFun (congrArg Roster.dir hroster)
  have hname : ∀ g, (s₁.files g).filename = (s.files g).filename :=
    congrFun (congrArg Roster.filename hroster)
  have hthere₁ : ∀ e g, There s₁ e g ↔
      ¬(s.contents.created f = true ∧ s.dir e = s.dir home ∧
        (s.files g).filename = (s.files f).filename) ∧
        ((s.dir e = s.dir d ∧ (s.files g).filename = (s.files f).filename) ∨
          There s e g) := by
    intro e g
    unfold There
    rw [hdir, hname]
    exact fs_moved (congrArg Contents.fs hcontents) _ _
  refine ⟨hplaced, ?_, ?_, ?_, ?_, ?_⟩
  · intro g hg
    rw [hhome₁, Function.update_apply]
    split_ifs
    · rfl
    · exact h.home g (hfiles ▸ hg)
  · rw [hfiles, hdisks]
    exact h.originDisk
  · rw [hdisks, hroster]
    exact h.dirs
  · intro g hg e he
    rw [hfiles] at hg
    rw [hdisks] at he
    have hdirHome : s.dir e = s.dir home ↔ e = home :=
      ⟨h.dirs e he home hhomeDisk, fun he => he ▸ rfl⟩
    have hdirTo : s.dir e = s.dir d ↔ e = d :=
      ⟨h.dirs e he d hd, fun he => he ▸ rfl⟩
    rw [hthere₁, hhome₁, h.there g hg e he, hdirHome, hdirTo]
    by_cases hgf : g = f
    · subst hgf
      rw [h.created g hg, hhome, Function.update_self]
      -- the old copy goes unless it is the origin
      by_cases horigin : origin g = home
      · subst horigin
        by_cases hed : e = d
        · simp [hed]
        · simp [hed, Ne.symm hed]
      · by_cases hed : e = d
        · have hdh : d ≠ home := fun hdh => hne hdh.symm
          simp [hed, hdh]
        · by_cases heh : e = home
          · have hed' : d ≠ home := fun hdh => hne hdh.symm
            simp [heh, horigin, Ne.symm horigin, hed']
          · have hhe : home ≠ e := fun hhe => heh hhe.symm
            have hde : d ≠ e := fun hde => hed hde.symm
            simp [hed, heh, hhe, hde]
    · have hnames : (s.files g).filename ≠ (s.files f).filename :=
        fun hnames => hgf (h.placed.built.filename_inj hg hf hnames)
      rw [Function.update_of_ne hgf]
      simp [hnames]
  · intro g hg
    rw [hfiles] at hg
    rw [hcreated₁, hhome₁]
    dsimp only
    by_cases hgf : g = f
    · subst hgf
      rw [Function.update_self, Function.update_self]
      have hbefore := h.there g hg d hd
      rw [hhome] at hbefore
      have hisNone : (s.fs (s.dir d) (s.files g).filename).isNone = true ↔ ¬There s d g := by
        unfold There
        rw [Option.isNone_iff_eq_none, not_not]
      rw [hisNone, hbefore]
      constructor
      · intro hno he
        exact hno (Or.inr (Option.some.inj he).symm)
      · rintro hno (hhd | ho)
        · exact hne (Option.some.inj hhd)
        · exact hno (congrArg some ho.symm)
    · rw [Function.update_of_ne hgf, Function.update_of_ne hgf]
      exact h.created g hg

/-! ## Steps -/

/-- A round of a relocation moves the file or leaves everything, and the move succeeds. -/
theorem Copies.relocateFile (h : Copies origin s) (hf : f ∈ s.fileHead) (hio : io.Succeeds) :
    (∀ d, s.plan f = some d → (workloadAssignFileToDisk s (some f) (some d) io).1 = 0) ∧
      Copies origin (relocateFile s f io) := by
  have hplaced := (h.placed.relocateFile io hf).1
  unfold Workload.relocateFile at hplaced ⊢
  have hplan : s.plan f = (s.files f).reassignDisk := rfl
  rw [hplan]
  cases hto : (s.files f).reassignDisk with
  | none => exact ⟨nofun, h⟩
  | some d =>
      rw [hto] at hplaced
      obtain ⟨hzero, hcopies⟩ := h.assign hf (h.placed.plan f hf d hto) hio
      refine ⟨fun e he => Option.some.inj he ▸ hzero, ?_⟩
      exact hcopies.frame hplaced (by simp) (by simp) (by simp) fun _ _ => Iff.rfl

/-- **A relocation keeps the invariant**, and all its moves succeed. -/
theorem Copies.relocate {files : List FilePtr} {ios : FilePtr → MoveIo} (h : Copies origin s)
    (hfiles : files ⊆ s.fileHead) (hio : ∀ f, (ios f).Succeeds) :
    Along (fun s f => Workload.relocateFile s f (ios f))
        (fun s f => ∀ d, s.plan f = some d →
          (workloadAssignFileToDisk s (some f) (some d) (ios f)).1 = 0) s files ∧
      Copies origin (files.foldl (fun s f => Workload.relocateFile s f (ios f)) s) := by
  induction files generalizing s with
  | nil => exact ⟨trivial, h⟩
  | cons f files ih =>
      obtain ⟨hf, hfiles⟩ := List.cons_subset.mp hfiles
      obtain ⟨hmove, hcopies⟩ := h.relocateFile hf (hio f)
      have hhead : (Workload.relocateFile s f (ios f)).fileHead = s.fileHead :=
        congrArg Roster.fileHead relocateFile_views.1
      obtain ⟨hmoves, hcopies⟩ := ih hcopies (by rw [hhead]; exact hfiles)
      exact ⟨⟨hmove, hmoves⟩, hcopies⟩

/-- A transfer writes the file it found. -/
theorem accessTransfer_fs (s : State) (f : FilePtr) (d : DiskPtr) (io : AccessIo) :
    (accessTransfer s f d io).2.contents.created = s.contents.created ∧
      ∀ dir name, (accessTransfer s f d io).2.fs dir name = none ↔ s.fs dir name = none := by
  have hsame : s.contents.created = s.contents.created ∧
      ∀ dir name, s.fs dir name = none ↔ s.fs dir name = none := ⟨rfl, fun _ _ => Iff.rfl⟩
  unfold accessTransfer
  dsimp only
  cases hfile : s.fs (s.dir d) (s.files f).filename with
  | none => split_ifs <;> exact hsame
  | some contents =>
      have hwrite : ∀ out, (s.setPath (s.dir d) (s.files f).filename (some out)).contents.created =
          s.contents.created ∧ ∀ dir name,
            (s.setPath (s.dir d) (s.files f).filename (some out)).fs dir name = none ↔
              s.fs dir name = none := by
        refine fun out => ⟨rfl, fun dir name => ?_⟩
        rw [State.setPath_fs]
        split_ifs with hpath
        · rw [hpath.1, hpath.2, hfile]
          exact ⟨nofun, nofun⟩
        · exact Iff.rfl
      dsimp only
      split_ifs
      · exact hsame
      · exact hsame
      · exact hsame
      · exact hsame
      · exact hwrite _
      · exact hwrite _

/-- The calls whose file operations succeed. -/
def FileOpsSucceed : Op → Prop
  | .relocate ios => ∀ f, (ios f).Succeeds
  | _ => True

/-- A call that does not relocate moves no file, and writes existing ones only. -/
theorem run_moves_nothing {op : Op} (hop : Running s op) : (∃ ios, op = .relocate ios) ∨
    ((op.run s).roster = s.roster ∧ (op.run s).placement = s.placement ∧
      (op.run s).contents.created = s.contents.created ∧
      ∀ dir name, (op.run s).fs dir name = none ↔ s.fs dir name = none) := by
  have hsame : ∀ s' : State, s'.roster = s.roster → s'.placement = s.placement → s'.contents = s.contents →
      s'.roster = s.roster ∧ s'.placement = s.placement ∧ s'.contents.created = s.contents.created ∧
        ∀ dir name, s'.fs dir name = none ↔ s.fs dir name = none := by
    intro s' hroster hplace hcontents
    have hfs : s'.fs = s.fs := congrArg Contents.fs hcontents
    refine ⟨hroster, hplace, congrArg Contents.created hcontents, fun dir name => ?_⟩
    rw [hfs]
  cases op with
  | relocate ios => exact Or.inl ⟨ios, rfl⟩
  | access file io =>
      have hviews := @workloadFileAccess_views s file io
      right
      cases file with
      | none => exact hsame s rfl rfl rfl
      | some f =>
          have hcontents : (workloadFileAccess s (some f) io).2.contents = s.contents ∨
              ∃ d, (workloadFileAccess s (some f) io).2.contents =
                (accessTransfer s f d io).2.contents := by
            obtain ⟨-, hres | ⟨d, -, hres⟩⟩ | ⟨-, d, r, w, -, -, -, hres⟩ :=
              workloadFileAccess_cases s f io
            · exact Or.inl (congrArg State.contents hres)
            · exact Or.inr ⟨d, congrArg State.contents hres⟩
            · exact Or.inr ⟨d, (congrArg State.contents hres).trans accessSection_views.2.2.2.1⟩
          obtain hcontents | ⟨d, hcontents⟩ := hcontents
          · exact hsame _ hviews.1 hviews.2.1 hcontents
          · obtain ⟨hcreated, hnone⟩ := accessTransfer_fs s f d io
            have hfs : (workloadFileAccess s (some f) io).2.fs = (accessTransfer s f d io).2.fs :=
              congrArg Contents.fs hcontents
            refine ⟨hviews.1, hviews.2.1, (congrArg Contents.created hcontents).trans hcreated,
              fun dir name => ?_⟩
            show (workloadFileAccess s (some f) io).2.fs dir name = none ↔ _
            rw [hfs]
            exact hnone dir name
  | reset =>
      have hviews := @workloadResetFileAccessCount_views s
      exact Or.inr (hsame _ hviews.1 hviews.2.1 hviews.2.2.2.2.1)
  | setRelocate value =>
      have hviews := @relocateSwitch_views s value
      exact Or.inr (hsame _ hviews.1 hviews.2.1 hviews.2.2.2.2.1)
  | toggleRelocate =>
      have hviews := @relocateSwitch_views s !s.relocate
      exact Or.inr (hsame _ hviews.1 hviews.2.1 hviews.2.2.2.2.1)
  | tick timeStamp => exact Or.inr (hsame _ rfl rfl rfl)
  | _ => exact absurd hop id

/-- **Step lemma.** -/
theorem Copies.step {op : Op} (h : Copies origin s) (hop : Running s op) (hio : FileOpsSucceed op) :
    Copies origin (op.run s) := by
  have hplaced : Placed (op.run s) := (h.placed.step hop.configured).1
  obtain ⟨ios, rfl⟩ | ⟨hroster, hplace, hcreated, hfs⟩ := run_moves_nothing hop
  · exact (h.relocate (List.Subset.refl _) hio).2
  · exact h.frame hplaced hroster hplace hcreated hfs

/-! ## Moved, not copied -/

/-- Every file exists in the directory of exactly one disk, the one it is assigned to. -/
def OnItsDisk (s : State) : Prop :=
  ∀ f ∈ s.fileHead, ∃ d ∈ s.diskHead, (s.files f).assignDisk = some d ∧
    ∀ e ∈ s.diskHead, There s e f ↔ e = d

/-- The call is not a relocation that finds a file planned for another disk. -/
def NothingToMove (s : State) : Op → Prop
  | .relocate _ => ∀ f ∈ s.fileHead, ∀ d, (s.files f).reassignDisk = some d →
      (s.files f).assignDisk = some d
  | _ => True

/-- Under the invariant that means every file is on its origin. -/
theorem Copies.onItsDisk_iff (h : Copies origin s) :
    OnItsDisk s ↔ ∀ f ∈ s.fileHead, s.placement.home f = some (origin f) := by
  constructor
  · intro hon f hf
    obtain ⟨d, -, hhome, honly⟩ := hon f hf
    have horigin := (h.there f hf (origin f) (h.originDisk f hf)).mpr (Or.inr rfl)
    rw [(honly (origin f) (h.originDisk f hf)).mp horigin]
    exact hhome
  · intro hhome f hf
    refine ⟨origin f, h.originDisk f hf, hhome f hf, fun e he => ?_⟩
    rw [h.there f hf e he, hhome f hf]
    exact ⟨fun hor => hor.elim (fun hsome => (Option.some.inj hsome).symm) Eq.symm,
      fun heq => Or.inr heq.symm⟩

/-- **Out of a state where every file is on its disk only, a call leads to such a state exactly when it moves
    nothing.** -/
theorem Copies.onItsDisk_step {op : Op} (h : Copies origin s) (hon : OnItsDisk s) (hop : Running s op)
    (hio : FileOpsSucceed op) : OnItsDisk (op.run s) ↔ NothingToMove s op := by
  have hhome := h.onItsDisk_iff.mp hon
  rw [(h.step hop hio).onItsDisk_iff]
  have hsame : (op.run s).roster = s.roster → (op.run s).placement = s.placement →
      ∀ f ∈ (op.run s).fileHead, (op.run s).placement.home f = some (origin f) := by
    intro hroster hplace f hf
    have hfiles : (op.run s).fileHead = s.fileHead := congrArg Roster.fileHead hroster
    rw [hplace]
    exact hhome f (hfiles ▸ hf)
  cases op with
  | access file io =>
      have hviews := @workloadFileAccess_views s file io
      exact ⟨fun _ => trivial, fun _ => hsame hviews.1 hviews.2.1⟩
  | reset =>
      have hviews := @workloadResetFileAccessCount_views s
      exact ⟨fun _ => trivial, fun _ => hsame hviews.1 hviews.2.1⟩
  | setRelocate value =>
      have hviews := @relocateSwitch_views s value
      exact ⟨fun _ => trivial, fun _ => hsame hviews.1 hviews.2.1⟩
  | toggleRelocate =>
      have hviews := @relocateSwitch_views s !s.relocate
      exact ⟨fun _ => trivial, fun _ => hsame hviews.1 hviews.2.1⟩
  | tick timeStamp => exact ⟨fun _ => trivial, fun _ => hsame rfl rfl⟩
  | relocate ios =>
      have hfiles : (workloadFileRelocate s ios).fileHead = s.fileHead :=
        congrArg Roster.fileHead workloadFileRelocate_views.1
      have hmoves := (h.relocate (List.Subset.refl _) hio).1
      have hafter : ∀ f ∈ s.fileHead, (workloadFileRelocate s ios).placement.home f =
          (s.plan f).or (s.placement.home f) := by
        intro f hf
        have hreloc := (relocate_home ios h.placed.built.fileHead_nodup hmoves f).1
        exact hreloc.trans (if_pos hf)
      constructor
      · intro honly f hf d hd
        have hplan : s.plan f = some d := hd
        have hgoes := hafter f hf
        rw [hplan, Option.some_or] at hgoes
        have hstays : (workloadFileRelocate s ios).placement.home f = some (origin f) :=
          honly f (show f ∈ (workloadFileRelocate s ios).fileHead from hfiles ▸ hf)
        exact (hhome f hf).trans (hstays.symm.trans hgoes)
      · intro hnothing f hf
        have hf : f ∈ s.fileHead := by
          rw [← hfiles]
          exact hf
        show (workloadFileRelocate s ios).placement.home f = _
        rw [hafter f hf, hhome f hf]
        cases hplan : s.plan f with
        | none => rfl
        | some d => exact (hnothing f hf d hplan).symm.trans (hhome f hf)
  | _ => exact absurd hop id

/-- A load that found none of the files leaves each of them on its disk only. -/
theorem Loaded.copies {fs : Text → Text → Option Bytes} (hs : Loaded s) (hwrote : WroteOnlyData fs s)
    (hdirs : ∀ d ∈ s.diskHead, ∀ e ∈ s.diskHead, s.dir d = s.dir e → d = e)
    (hempty : ∀ d ∈ s.diskHead, ∀ f ∈ s.fileHead, fs (s.dir d) (s.files f).filename = none) :
    Copies (fun f => (s.placement.home f).getD 0) s := by
  obtain ⟨seats, hseats⟩ := hs.seated
  have hgetD : ∀ f ∈ s.fileHead, s.placement.home f = some ((s.placement.home f).getD 0) := by
    intro f hf
    obtain ⟨d, hd⟩ := Option.isSome_iff_exists.mp (hs.home f hf)
    rw [hd]
    rfl
  refine ⟨hs.kept.placed, hs.home, ?_, hdirs, ?_, ?_⟩
  · exact fun f hf => hseats.target f hf _ (hgetD f hf)
  · intro f hf d hd
    have hhome : There s d f ↔ s.placement.home f = some d := by
      refine ⟨fun hthere => ?_, hs.there f hf d⟩
      obtain hold | ⟨g, hg, e, he, hdir, hname⟩ := hwrote (s.dir d) (s.files f).filename
      · exact absurd (hold.trans (hempty d hd f hf)) hthere
      · obtain rfl := hs.built.filename_inj hf hg hname
        obtain rfl := hdirs d hd e (hseats.target f hf e he) hdir
        exact he
    rw [hhome]
    refine ⟨Or.inl, fun h => h.elim id fun horigin => ?_⟩
    rw [← horigin]
    exact hgetD f hf
  · intro f hf
    have hflag : s.contents.created f = false := hs.created f hf
    rw [hflag]
    exact ⟨nofun, fun h => absurd (hgetD f hf) h⟩

/-- **A relocated file is moved, not copied, exactly as long as nothing is relocated.** Every disk has a directory of
    its own, so what is there is told by the disk and the name. -/
theorem moved_not_copied {env : LoadEnv} {s₀ s : State} (hidle : Idle s₀)
    (hload : workloadLoadConfig env s₀ = some (0, s))
    (hdirs : ∀ d ∈ s.diskHead, ∀ e ∈ s.diskHead, s.dir d = s.dir e → d = e)
    (hempty : ∀ d ∈ s.diskHead, ∀ f ∈ s.fileHead,
      s₀.fs (s.dir d) (s.files f).filename = none) {ops : List Op}
    (hops : Along Op.run (fun s op => Running s op ∧ FileOpsSucceed op) s ops) :
    Always Op.run OnItsDisk s ops ↔ Along Op.run NothingToMove s ops := by
  obtain ⟨hloaded, hwrote⟩ := workloadLoadConfig_ok hidle hload
  have hcopies := hloaded.copies hwrote hdirs hempty
  refine always_iff_along (fun _ _ h hop => h.step hop.1 hop.2)
    (fun _ _ h hon hop => h.onItsDisk_step hon hop.1 hop.2) hcopies ?_ hops
  refine hcopies.onItsDisk_iff.mpr fun f hf => ?_
  obtain ⟨d, hd⟩ := Option.isSome_iff_exists.mp (hloaded.home f hf)
  rw [hd]
  rfl

/-- Every file operation of the small move succeeds. -/
theorem smallMove_succeeds : smallMove.Succeeds := ⟨rfl, rfl, rfl, rfl, rfl, rfl, rfl⟩

/-- The first file is accessed and keeps its rank, so the relocation has nothing to do. -/
theorem moved_not_copied_small :
    Always Op.run OnItsDisk smallLoaded
      [.access (some 0) (smallAccess 1), .toggleRelocate, .relocate fun _ => smallMove] := by
  refine (moved_not_copied (idle_init _ _ _ _) small_loads ?_ ?_ ?_).mpr ⟨trivial, trivial, ?_, trivial⟩
  · decide +kernel
  · exact fun _ _ _ _ => rfl
  · refine ⟨⟨?_, trivial⟩, ⟨trivial, trivial⟩, ⟨trivial, fun _ => smallMove_succeeds⟩, trivial⟩
    show 0 ∈ smallLoaded.fileHead
    decide +kernel
  · intro f hf d hd
    have hnone : ∀ f ∈ (Op.run (Op.run smallLoaded (.access (some 0) (smallAccess 1))) .toggleRelocate).fileHead,
        ((Op.run (Op.run smallLoaded (.access (some 0) (smallAccess 1))) .toggleRelocate).files f).reassignDisk =
          none := by decide +kernel
    exact nomatch (hnone f hf).symm.trans hd

/-- The second file is accessed, so the two files change places: both are on both disks then. -/
theorem relocate_copies :
    let calls : List Op := [.access (some 1) (smallAccess 1), .relocate fun _ => smallMove]
    Along Op.run (fun s op => Running s op ∧ FileOpsSucceed op) smallLoaded calls ∧
      ¬ OnItsDisk (exec Op.run smallLoaded calls) := by
  intro calls
  refine ⟨⟨⟨?_, trivial⟩, ⟨trivial, fun _ => smallMove_succeeds⟩, trivial⟩, fun hon => ?_⟩
  · show 1 ∈ smallLoaded.fileHead
    decide +kernel
  · have hfile : 1 ∈ (exec Op.run smallLoaded calls).fileHead := by decide +kernel
    have hdisks : 0 ∈ (exec Op.run smallLoaded calls).diskHead ∧
        1 ∈ (exec Op.run smallLoaded calls).diskHead := by decide +kernel
    have hboth : There (exec Op.run smallLoaded calls) 0 1 ∧ There (exec Op.run smallLoaded calls) 1 1 := by
      unfold There
      decide +kernel
    obtain ⟨d, -, -, honly⟩ := hon 1 hfile
    have hfirst : 0 = d := (honly 0 hdisks.1).mp hboth.1
    have hsecond : 1 = d := (honly 1 hdisks.2).mp hboth.2
    exact absurd (hfirst.trans hsecond.symm) (by decide)

end Workload
