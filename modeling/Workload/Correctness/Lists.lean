import Workload.Lib.Trace
import Workload.Correctness.Services

/-!
# `Correctness.Lists` — the lists of the disks in every state of a run

`Placed` is the invariant: some lists represent the placement, and the plan names disks of the configuration
only. The calls on a configuration keep it (`Placed.step`); the only ones that edit lists are
`workload_assign_file_to_disk` and, through it, `workload_file_relocate`, whose rounds are `relocateFile`.

**Main result.** `disk_lists`: what the source relies on about `m_assign_file`, `m_assign_prev`,
`m_assign_next`, `m_assign_disk` and `m_assign_file_count`, for every run from the moment the objects exist.
-/

namespace Workload

open Intrusive Trace

/-! ## The plan -/

theorem plan_modifyFile_eq (s : State) (f : FilePtr) (g : File → File) :
    (s.modifyFile f g).plan = Function.update s.plan f (g (s.files f)).reassignDisk := by
  funext x
  simp only [State.plan, State.modifyFile_files, Function.update_apply]
  split_ifs <;> rfl

/-- The inner loop plans for `d` or drops the plan. -/
theorem planWindow_target (d : DiskPtr) (n i : Nat) (s : State) (g : FilePtr) :
    (planWindow d n i s).plan g = s.plan g ∨ (planWindow d n i s).plan g = none ∨
      (planWindow d n i s).plan g = some d := by
  induction n generalizing i s with
  | zero => exact Or.inl rfl
  | succ n ih =>
      unfold planWindow
      dsimp only
      rcases ih (i + 1) (s.modifyFile (s.fileSorted.getD i 0) fun file =>
        { file with reassignDisk := if file.assignDisk = some d then none else some d }) with h | h
      · rw [h, plan_modifyFile_eq, Function.update_apply]
        split_ifs
        · exact Or.inr (Or.inl rfl)
        · exact Or.inr (Or.inr rfl)
        · exact Or.inl rfl
      · exact Or.inr h

/-- The plan names disks of the array only. -/
theorem planLoop_target (next : List Nat) (n i j : Nat) (s : State) (g : FilePtr)
    (hn : i + n ≤ s.disk.length) :
    (planLoop next n i j s).plan g = s.plan g ∨ (planLoop next n i j s).plan g = none ∨
      ∃ d ∈ s.disk, (planLoop next n i j s).plan g = some d := by
  induction n generalizing i j s with
  | zero => exact Or.inl rfl
  | succ n ih =>
      have hd : s.disk.getD i 0 ∈ s.disk := by
        rw [List.getD_eq_getElem?_getD, List.getElem?_eq_getElem (by omega)]
        exact List.getElem_mem _
      have hdisk : (planWindow (s.disk.getD i 0) (next.getD i 0 - j) j s).disk = s.disk :=
        congrArg Roster.disk planWindow_views.1
      unfold planLoop
      dsimp only
      rcases ih (i + 1) (max j (next.getD i 0))
        (planWindow (s.disk.getD i 0) (next.getD i 0 - j) j s) (by rw [hdisk]; omega) with h | h | h
      · rw [h]
        exact (planWindow_target _ _ _ s g).imp_right fun h => h.imp_right fun h => ⟨_, hd, h⟩
      · exact Or.inr (Or.inl h)
      · rw [hdisk] at h
        exact Or.inr (Or.inr h)

theorem planReassign_target {s : State} (hb : s.roster.Built) (g : FilePtr) :
    (planReassign s).plan g = s.plan g ∨ (planReassign s).plan g = none ∨
      ∃ d ∈ s.diskHead, (planReassign s).plan g = some d := by
  have hdisk : s.disk = s.diskHead := hb.disk
  have hcount : s.diskCount = s.diskHead.length := hb.diskCount
  unfold planReassign
  split
  · exact Or.inl rfl
  · rw [← hdisk]
    exact planLoop_target _ _ _ _ _ _ (by rw [hdisk]; omega)

theorem accessSection_target {s : State} {f : FilePtr} {r w : Nat} (hb : s.roster.Built)
    (g : FilePtr) :
    (accessSection s f r w).plan g = s.plan g ∨ (accessSection s f r w).plan g = none ∨
      ∃ d ∈ s.diskHead, (accessSection s f r w).plan g = some d := by
  unfold accessSection
  dsimp only
  rw [updateDb_views.2.2.2.2.1]
  generalize hs₁ : sortIndex f (accessCount (countAccess s f r w) f)
    ((countAccess s f r w).files f).index (countAccess s f r w) = s₁
  have hroster : s₁.roster = s.roster := by
    rw [← hs₁]
    simp
  have hplan : s₁.plan = s.plan := by
    rw [← hs₁]
    simp
  have hdisks : s₁.diskHead = s.diskHead := congrArg Roster.diskHead hroster
  have h := planReassign_target (s := s₁) (hroster ▸ hb) g
  rw [hplan, hdisks] at h
  exact h

/-! ## The invariant -/

/-- Lists represent the placement, and the plan stays inside the configuration. -/
structure Placed (s : State) : Prop where
  built : s.roster.Built
  seated : ∃ seats, Seated s.diskHead s.fileHead s.placement seats
  plan : ∀ f ∈ s.fileHead, ∀ d, s.plan f = some d → d ∈ s.diskHead

/-- Files stay assigned. -/
def KeepsAssigned (s s' : State) : Prop :=
  ∀ f ∈ s.fileHead, (s.placement.home f).isSome → (s'.placement.home f).isSome

theorem Placed.frame {s s' : State} (h : Placed s) (hroster : s'.roster = s.roster)
    (hplace : s'.placement = s.placement)
    (hplan : ∀ f ∈ s.fileHead, ∀ d, s'.plan f = some d → d ∈ s.diskHead) : Placed s' := by
  have hfiles : s'.fileHead = s.fileHead := congrArg Roster.fileHead hroster
  have hdisks : s'.diskHead = s.diskHead := congrArg Roster.diskHead hroster
  refine ⟨hroster ▸ h.built, ?_, ?_⟩
  · rw [hfiles, hdisks, hplace]
    exact h.seated
  · rw [hfiles, hdisks]
    exact hplan

/-- A move keeps the lists and all assignments. -/
theorem Placed.move {s s' : State} {f : FilePtr} {d : DiskPtr} (h : Placed s)
    (hroster : s'.roster = s.roster) (hplan : ∀ g d, s'.plan g = some d → s.plan g = some d)
    (hf : f ∈ s.fileHead) (hd : d ∈ s.diskHead)
    (hplace : s'.placement = s.placement ∨ s'.placement = s.placement.move f d) :
    Placed s' ∧ KeepsAssigned s s' := by
  have hfiles : s'.fileHead = s.fileHead := congrArg Roster.fileHead hroster
  have hdisks : s'.diskHead = s.diskHead := congrArg Roster.diskHead hroster
  refine ⟨⟨hroster ▸ h.built, ?_, ?_⟩, ?_⟩
  · obtain ⟨seats, hseats⟩ := h.seated
    rw [hfiles, hdisks]
    rcases hplace with hplace | hplace
    · rw [hplace]
      exact ⟨seats, hseats⟩
    · rw [hplace]
      exact hseats.move h.built.fileHead_lt hf hd
  · rw [hfiles, hdisks]
    exact fun g hg e he => h.plan g hg e (hplan g e he)
  · intro g _ hg
    rcases hplace with hplace | hplace
    · rw [hplace]
      exact hg
    · rw [hplace, Placement.move_home, Function.update_apply]
      split_ifs
      · rfl
      · exact hg

/-! ## Relocation -/

/-- **A round of `workload_file_relocate`**: nothing is planned, or the file is moved (or not) and its plan is
    dropped. -/
theorem relocateFile_cases (s : State) (f : FilePtr) (io : MoveIo) :
    s.plan f = none ∧ relocateFile s f io = s ∨
      ∃ d, s.plan f = some d ∧ (relocateFile s f io).plan = Function.update s.plan f none ∧
        ((workloadAssignFileToDisk s (some f) (some d) io).1 = -1 ∧
            (relocateFile s f io).placement = s.placement ∨
          (workloadAssignFileToDisk s (some f) (some d) io).1 = 0 ∧
            (relocateFile s f io).placement = s.placement.move f d) := by
  have hp : s.plan f = (s.files f).reassignDisk := rfl
  unfold relocateFile
  rw [hp]
  cases (s.files f).reassignDisk with
  | none => exact Or.inl ⟨rfl, rfl⟩
  | some d =>
      refine Or.inr ⟨d, rfl, ?_, ?_⟩
      · dsimp only
        rw [plan_modifyFile_eq, workloadAssignFileToDisk_views.2.2.2.1]
      · simpa using assign_placement s f d io

/-- A round keeps the invariant. -/
theorem Placed.relocateFile {s : State} {f : FilePtr} (io : MoveIo) (h : Placed s)
    (hf : f ∈ s.fileHead) :
    Placed (relocateFile s f io) ∧ KeepsAssigned s (relocateFile s f io) := by
  obtain ⟨-, hsame⟩ | ⟨d, hd, hplan, hplace⟩ := relocateFile_cases s f io
  · rw [hsame]
    exact ⟨h, fun _ _ hg => hg⟩
  · refine h.move relocateFile_views.1 ?_ hf (h.plan f hf d hd) (hplace.imp And.right And.right)
    intro g e hg
    rw [hplan, Function.update_apply] at hg
    split_ifs at hg
    exact hg

/-- **Relocation keeps the invariant.** -/
theorem Placed.relocate {files : List FilePtr} {ios : FilePtr → MoveIo} {s : State} (h : Placed s)
    (hfiles : files ⊆ s.fileHead) :
    Placed (files.foldl (fun s f => Workload.relocateFile s f (ios f)) s) ∧
      KeepsAssigned s (files.foldl (fun s f => Workload.relocateFile s f (ios f)) s) := by
  induction files generalizing s with
  | nil => exact ⟨h, fun _ _ hg => hg⟩
  | cons f files ih =>
      obtain ⟨hf, hfiles⟩ := List.cons_subset.mp hfiles
      obtain ⟨h₁, hkeep₁⟩ := h.relocateFile (ios f) hf
      have hhead : (Workload.relocateFile s f (ios f)).fileHead = s.fileHead :=
        congrArg Roster.fileHead relocateFile_views.1
      obtain ⟨h₂, hkeep₂⟩ := ih h₁ (by rw [hhead]; exact hfiles)
      refine ⟨h₂, fun g hg hsome => hkeep₂ g (by rw [hhead]; exact hg) (hkeep₁ g hg hsome)⟩

/-- A round moves its own file only, and only to the disk planned for it. -/
theorem relocateFile_home (s : State) (f : FilePtr) (io : MoveIo) (g : FilePtr) :
    ((relocateFile s f io).plan g = s.plan g ∧
        (relocateFile s f io).placement.home g = s.placement.home g) ∨
      (relocateFile s f io).plan g = none ∧
        ((relocateFile s f io).placement.home g = s.placement.home g ∨
          ∃ d, s.plan g = some d ∧ (relocateFile s f io).placement.home g = some d) := by
  obtain ⟨-, hsame⟩ | ⟨d, hd, hplan, hplace⟩ := relocateFile_cases s f io
  · rw [hsame]
    exact Or.inl ⟨rfl, rfl⟩
  · rw [hplan]
    by_cases hgf : g = f
    · subst hgf
      refine Or.inr ⟨Function.update_self .., ?_⟩
      obtain ⟨-, hstay⟩ | ⟨-, hmove⟩ := hplace
      · exact Or.inl (by rw [hstay])
      · refine Or.inr ⟨d, hd, ?_⟩
        rw [hmove, Placement.move_home, Function.update_self]
    · refine Or.inl ⟨Function.update_of_ne hgf .., ?_⟩
      obtain ⟨-, hstay⟩ | ⟨-, hmove⟩ := hplace
      · rw [hstay]
      · rw [hmove, Placement.move_home, Function.update_of_ne hgf]

/-- **A relocation leaves every file where it was or puts it on the disk planned for it.** -/
theorem relocate_target {files : List FilePtr} {ios : FilePtr → MoveIo} {s : State} (g : FilePtr) :
    (files.foldl (fun s f => Workload.relocateFile s f (ios f)) s).placement.home g =
        s.placement.home g ∨
      ∃ d, s.plan g = some d ∧
        (files.foldl (fun s f => Workload.relocateFile s f (ios f)) s).placement.home g = some d := by
  induction files generalizing s with
  | nil => exact Or.inl rfl
  | cons f files ih =>
      have hround := relocateFile_home s f (ios f) g
      rcases ih (s := Workload.relocateFile s f (ios f)) with h | ⟨d, hd, h⟩
      · rw [List.foldl_cons, h]
        obtain ⟨-, hhome⟩ | ⟨-, hhome⟩ := hround
        · exact Or.inl hhome
        · exact hhome
      · obtain ⟨hplan, -⟩ | ⟨hnone, -⟩ := hround
        · exact Or.inr ⟨d, hplan ▸ hd, h⟩
        · exact nomatch hnone.symm.trans hd

/-! ## Steps -/

/-- An access plans inside the configuration. -/
theorem Placed.access_plan {s : State} {f g : FilePtr} {d : DiskPtr} {io : AccessIo} (h : Placed s)
    (hg : g ∈ s.fileHead) (hplan : (workloadFileAccess s (some f) io).2.plan g = some d) :
    d ∈ s.diskHead := by
  obtain ⟨-, hres | ⟨e, -, hres⟩⟩ | ⟨-, e, r, w, -, -, -, hres⟩ := workloadFileAccess_cases s f io
  · exact h.plan g hg d (hres ▸ hplan)
  · rw [hres, accessTransfer_views.2.2.2.2.1] at hplan
    exact h.plan g hg d hplan
  · have hroster := (@accessTransfer_views s f e io).1
    have hdisks : (accessTransfer s f e io).2.diskHead = s.diskHead :=
      congrArg Roster.diskHead hroster
    have htarget := accessSection_target (s := (accessTransfer s f e io).2) (f := f)
      (r := r) (w := w) (hroster ▸ h.built) g
    rw [← hres, accessTransfer_views.2.2.2.2.1, hdisks] at htarget
    rcases htarget with htarget | htarget | ⟨d', hd', htarget⟩
    · exact h.plan g hg d (htarget ▸ hplan)
    · exact nomatch htarget.symm.trans hplan
    · exact Option.some.inj (htarget.symm.trans hplan) ▸ hd'

/-- The calls between the object stages of a load and the next unload, on files and disks of the
    configuration. -/
def Configured (s : State) : Op → Prop
  | .load _ => False
  | .unload _ => False
  | .command _ _ => False
  | .assign file disk _ => (∀ f ∈ file, f ∈ s.fileHead) ∧ ∀ d ∈ disk, d ∈ s.diskHead
  | .access file _ => ∀ f ∈ file, f ∈ s.fileHead
  | _ => True

/-- Starting services edits no list and counts nothing. -/
theorem startServices_views (env : LoadEnv) (s : State) :
    (startServices env s).roster = s.roster ∧ (startServices env s).placement = s.placement ∧
      (startServices env s).counters = s.counters ∧ (startServices env s).plan = s.plan := by
  have htree : ∀ (s : State) entry, (deleteTree s entry).roster = s.roster ∧
      (deleteTree s entry).placement = s.placement ∧ (deleteTree s entry).counters = s.counters ∧
      (deleteTree s entry).plan = s.plan := fun s entry => ⟨rfl, rfl, rfl, rfl⟩
  have hclose : ∀ (s : State) d, (closeService s d).roster = s.roster ∧
      (closeService s d).placement = s.placement ∧ (closeService s d).counters = s.counters ∧
      (closeService s d).plan = s.plan := by
    intro s d
    unfold closeService
    split
    · exact ⟨rfl, rfl, rfl, rfl⟩
    · dsimp only
      split <;> simp [htree]
  have hopen : ∀ (s : State) d, (openService env s d).roster = s.roster ∧
      (openService env s d).placement = s.placement ∧ (openService env s d).counters = s.counters ∧
      (openService env s d).plan = s.plan := by
    intro s d
    simp [openService, hclose]
  unfold startServices
  exact ⟨foldl_keeps (p := State.roster) (fun s d => (hopen s d).1) _ _,
    foldl_keeps (p := State.placement) (fun s d => (hopen s d).2.1) _ _,
    foldl_keeps (p := State.counters) (fun s d => (hopen s d).2.2.1) _ _,
    foldl_keeps (p := State.plan) (fun s d => (hopen s d).2.2.2) _ _⟩

/-- **Step lemma.** -/
theorem Placed.step {s : State} {op : Op} (h : Placed s) (hop : Configured s op) :
    Placed (op.run s) ∧ KeepsAssigned s (op.run s) := by
  have hsame : ∀ s', s'.roster = s.roster → s'.placement = s.placement → s'.plan = s.plan →
      Placed s' ∧ KeepsAssigned s s' := by
    intro s' hroster hplace hplan
    refine ⟨h.frame hroster hplace (hplan ▸ h.plan), fun f _ hf => ?_⟩
    rw [hplace]
    exact hf
  cases op with
  | load env => exact absurd hop id
  | unload io => exact absurd hop id
  | command code ios => exact absurd hop id
  | index env => exact ⟨⟨h.built.index _, h.seated, h.plan⟩, fun _ _ hf => hf⟩
  | start env =>
      obtain ⟨hroster, hplace, -, hplan⟩ := startServices_views env s
      exact hsame _ hroster hplace hplan
  | service d io => exact hsame _ (by simp [Op.run]) (by simp [Op.run]) (by simp [Op.run])
  | assign file disk io =>
      obtain ⟨hfile, hdisk⟩ := hop
      cases file with
      | none => exact hsame _ rfl rfl rfl
      | some f =>
          cases disk with
          | none => exact hsame _ rfl rfl rfl
          | some d =>
              have hviews := @workloadAssignFileToDisk_views s (some f) (some d) io
              refine h.move hviews.1 ?_ (hfile f rfl) (hdisk d rfl)
                ((assign_placement s f d io).imp And.right And.right)
              intro g e hg
              rw [← hviews.2.2.2.1]
              exact hg
  | access file io =>
      cases file with
      | none => exact hsame _ rfl rfl rfl
      | some f =>
          have hviews := @workloadFileAccess_views s (some f) io
          refine ⟨h.frame hviews.1 hviews.2.1 fun g hg d hd => h.access_plan hg hd, fun g _ hg => ?_⟩
          show ((workloadFileAccess s (some f) io).2.placement.home g).isSome
          rw [hviews.2.1]
          exact hg
  | reset =>
      have hviews := workloadResetFileAccessCount_views (s := s)
      exact hsame _ hviews.1 hviews.2.1 hviews.2.2.2.1
  | setRelocate value =>
      have hviews := relocateSwitch_views (s := s) (b := value)
      exact hsame _ hviews.1 hviews.2.1 hviews.2.2.2.1
  | toggleRelocate =>
      have hviews := relocateSwitch_views (s := s) (b := !s.relocate)
      exact hsame _ hviews.1 hviews.2.1 hviews.2.2.2.1
  | relocate ios => exact h.relocate (List.Subset.refl _)
  | tick timeStamp => exact hsame _ rfl rfl rfl
  | screen height =>
      have hviews := @workloadUpdateScreen_views s height
      exact hsame _ hviews.1 hviews.2.1 hviews.2.2.2.2.1

/-! ## The lists in every state -/

/-- The chains `m_assign_next` of the disks are `lists`, and everything kept beside them fits. -/
structure DiskLists (s : State) (lists : DiskPtr → List FilePtr) : Prop where
  list : ∀ d ∈ s.diskHead, IsList s.placement.links (s.disks d).assignFile (lists d)
  assigned : ∀ f ∈ s.fileHead, ∀ d, (s.files f).assignDisk = some d →
    d ∈ s.diskHead ∧ (lists d).count f = 1 ∧ ∀ e ∈ s.diskHead, f ∈ lists e → e = d
  unassigned : ∀ f ∈ s.fileHead, (s.files f).assignDisk = none → ∀ d ∈ s.diskHead, f ∉ lists d
  next : ∀ d ∈ s.diskHead, ∀ f ∈ lists d, ∀ g, (s.files f).assignNext = some g →
    g ∈ lists d ∧ (s.files g).assignPrev = some f
  prev : ∀ d ∈ s.diskHead, ∀ f ∈ lists d, ∀ g, (s.files f).assignPrev = some g →
    g ∈ lists d ∧ (s.files g).assignNext = some f
  head : ∀ d ∈ s.diskHead, ∀ f ∈ lists d,
    (s.files f).assignPrev = none ↔ (s.disks d).assignFile = some f
  count : ∀ d ∈ s.diskHead, (s.disks d).assignFileCount = (lists d).length
  sum : (s.diskHead.map fun d => (s.disks d).assignFileCount).sum =
    s.fileHead.countP fun f => (s.files f).assignDisk.isSome

/-- The invariant gives the lists. -/
theorem Placed.diskLists {s : State} (h : Placed s) : ∃ lists, DiskLists s lists := by
  obtain ⟨seats, hseats⟩ := h.seated
  refine ⟨seats, hseats.list, ?_, ?_, ?_, ?_, ?_, hseats.count, ?_⟩
  · intro f hf d hhome
    have hd := hseats.target f hf d hhome
    have hmem := (hseats.home d hd f hf).mpr hhome
    refine ⟨hd, List.count_eq_one_of_mem (hseats.list d hd).2 hmem, fun e he hfe => ?_⟩
    exact Option.some.inj (((hseats.home e he f hf).mp hfe).symm.trans hhome)
  · intro f hf hhome d hd hmem
    exact nomatch ((hseats.home d hd f hf).mp hmem).symm.trans hhome
  · intro d hd f hf g hg
    have hmem := (hseats.list d hd).next_mem hf hg
    exact ⟨hmem, ((hseats.list d hd).next_iff_prev hf hmem).mp hg⟩
  · intro d hd f hf g hg
    have hmem := (hseats.list d hd).prev_mem hf hg
    exact ⟨hmem, ((hseats.list d hd).next_iff_prev hmem hf).mpr hg⟩
  · intro d hd f hf
    have hlist := hseats.list d hd
    have hhead : (s.disks d).assignFile = (seats d).head? := hlist.1.head_eq
    obtain ⟨before, after, hsplit⟩ := List.append_of_mem hf
    rw [hsplit] at hlist hhead
    have hprev : (s.files f).assignPrev = none ↔ before = [] := hlist.prev_none_iff
    rw [hprev, hhead]
    -- `f` heads the list exactly when nothing is before it
    cases before with
    | nil => simp
    | cons g before =>
        have hgf : g ≠ f := by
          rintro rfl
          exact (List.nodup_cons.mp hlist.2).1 (by simp)
        simp [hgf]
  · exact hseats.sum_count h.built.diskHead_nodup h.built.fileHead_nodup

theorem Prepared.placed {s : State} (hs : Prepared s) : Placed s := by
  refine ⟨hs.built, ⟨_, hs.seated⟩, fun f hf d hd => ?_⟩
  obtain ⟨i, hfresh⟩ := hs.file hf
  have hnone : s.plan f = none := hfresh.reassignDisk
  exact nomatch hnone.symm.trans hd

/-- What a call does to the files it is about: an assignment that returns `0` puts its file on the list of its
    disk, and a relocation leaves a file where it was or puts it on the disk planned for it. -/
def Assigns (t : State) : Op → Prop
  | .assign file disk io => (workloadAssignFileToDisk t file disk io).1 = 0 →
      ∃ f d, file = some f ∧ disk = some d ∧
        ((workloadAssignFileToDisk t file disk io).2.files f).assignDisk = some d ∧
        ∃ lists, DiskLists (workloadAssignFileToDisk t file disk io).2 lists ∧ f ∈ lists d
  | .relocate ios => ∀ f ∈ t.fileHead,
      ((workloadFileRelocate t ios).files f).assignDisk = (t.files f).assignDisk ∨
        ∃ d, (t.files f).reassignDisk = some d ∧
          ((workloadFileRelocate t ios).files f).assignDisk = some d
  | _ => True

/-- An assignment that returns `0` has moved the file. -/
theorem assign_home {s : State} {file : Option FilePtr} {disk : Option DiskPtr} {io : MoveIo}
    (hok : (workloadAssignFileToDisk s file disk io).1 = 0) :
    ∃ f d, file = some f ∧ disk = some d ∧
      ((workloadAssignFileToDisk s file disk io).2.files f).assignDisk = some d := by
  cases file with
  | none => exact absurd hok (show ¬(-1 : Int) = 0 by decide)
  | some f =>
      cases disk with
      | none => exact absurd hok (show ¬(-1 : Int) = 0 by decide)
      | some d =>
          obtain ⟨hfail, -⟩ | ⟨-, hplace⟩ := assign_placement s f d io
          · rw [hok] at hfail
            exact absurd hfail (by decide)
          · refine ⟨f, d, rfl, rfl, ?_⟩
            show (workloadAssignFileToDisk s (some f) (some d) io).2.placement.home f = some d
            rw [hplace, Placement.move_home, Function.update_self]

/-- The lists make the move visible. -/
theorem Placed.assigns {s : State} {op : Op} (h : Placed s) (hop : Configured s op) :
    Assigns s op := by
  cases op with
  | assign file disk io =>
      intro hok
      obtain ⟨f, d, rfl, rfl, hhome⟩ := assign_home hok
      have hroster : (workloadAssignFileToDisk s (some f) (some d) io).2.fileHead = s.fileHead :=
        congrArg Roster.fileHead (@workloadAssignFileToDisk_views s (some f) (some d) io).1
      have hnext : Placed (workloadAssignFileToDisk s (some f) (some d) io).2 :=
        (h.step (show Configured s (.assign (some f) (some d) io) from hop)).1
      obtain ⟨lists, hlists⟩ := hnext.diskLists
      have hon := (hlists.assigned f (hroster ▸ hop.1 f rfl) d hhome).2.1
      exact ⟨f, d, rfl, rfl, hhome, lists, hlists, List.count_pos_iff.mp (hon ▸ Nat.one_pos)⟩
  | relocate ios => exact fun f _ => relocate_target f
  | _ => trivial

/-- **The lists of the disks.** From the moment the objects of a configuration exist, in every state of every
    run the lists represent who is assigned where, files stay assigned, an assignment that returns `0` has put
    its file on the list of its disk, and one that returns `-1` left the placement as it was. -/
theorem disk_lists {env : LoadEnv} {doc : Document} {s₀ s : State} (hidle : Idle s₀)
    (hload : loadObjects env doc s₀ = .ok s) {ops : List Op} (hops : Along Op.run Configured s ops) :
    Always Op.run (fun t => ∃ lists, DiskLists t lists) s ops ∧
      Along Op.run (fun t op => KeepsAssigned t (op.run t)) s ops ∧
      Along Op.run Assigns s ops ∧
      ∀ t file disk io, (workloadAssignFileToDisk t file disk io).1 = -1 →
        (workloadAssignFileToDisk t file disk io).2.placement = t.placement := by
  have hplaced := (loadObjects_ok hidle hload).1.placed
  refine ⟨?_, ?_, ?_, ?_⟩
  · exact always_of_invariant (fun t op h hop => (h.step hop).1) (fun t h => h.diskLists) hplaced hops
  · exact along_of_invariant (fun t op h hop => (h.step hop).1) (fun t op h hop => (h.step hop).2)
      hplaced hops
  · exact along_of_invariant (fun t op h hop => (h.step hop).1) (fun t op h hop => h.assigns hop)
      hplaced hops
  · intro t file disk io hfail
    cases file with
    | none => rfl
    | some f =>
        cases disk with
        | none => rfl
        | some d =>
            obtain ⟨-, hplace⟩ | ⟨hok, -⟩ := assign_placement t f d io
            · exact hplace
            · rw [hok] at hfail
              exact absurd hfail (by decide)

/-- Both files go to the first disk, one of them on to the second; then an access plans, a relocation moves. -/
def smallMoves : List Op :=
  [.assign (some 0) (some 0) smallMove, .assign (some 1) (some 0) smallMove,
    .assign (some 0) (some 1) smallMove, .index (smallEnv [] small_fits none),
    .access (some 1) (smallAccess 1), .relocate fun _ => smallMove]

/-- Three assignments return `0`, so the conjunct about them is about real moves. -/
theorem disk_lists_small :
    Always Op.run (fun t => ∃ lists, DiskLists t lists) smallPrepared smallMoves ∧
      Along Op.run Assigns smallPrepared smallMoves ∧
      (workloadAssignFileToDisk smallPrepared (some 0) (some 0) smallMove).1 = 0 := by
  have hops : Along Op.run Configured smallPrepared smallMoves := by
    refine ⟨⟨?_, ?_⟩, ⟨?_, ?_⟩, ⟨?_, ?_⟩, trivial, ?_, trivial, trivial⟩ <;> rintro _ ⟨⟩ <;>
      decide +kernel
  have h := disk_lists (idle_init _ _ _ _) small_prepares hops
  exact ⟨h.1, h.2.2.1, by decide +kernel⟩

end Workload
