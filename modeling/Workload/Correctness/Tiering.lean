import Mathlib.Data.List.Count
import Workload.Lib.Tiers
import Workload.Correctness.Lists
import Workload.Correctness.Ranks

/-!
# `Correctness.Tiering` — relocation reaches the tiered layout

Rank `r` of the sorted array belongs on the disk whose window of `m_next_file_index` contains `r`
(`Tiers.InWindow`). A counted access plans exactly the files that are elsewhere (`planReassign_plan`), and a
relocation in which every move succeeds carries the plan out (`relocate_home`), whatever was planned, moved
or missed before. The windows are as large as the disks' file counts at load time, so the quotas come back by
counting the layout.

**Main result.** `relocate_tiers`.
-/

namespace Workload

open Intrusive Ranking Tiers Trace

/-! ## The plan of an access -/

/-- `m_reassign_disk` of a file that belongs on `d`. -/
def tierPlan (home : Option DiskPtr) (d : DiskPtr) : Option DiskPtr :=
  if home = some d then none else some d

/-- **The inner loop** plans the ranks of its window, and no others. -/
theorem planWindow_plan {d : DiskPtr} {n i : Nat} {s : State} (hnd : s.fileSorted.Nodup)
    (hn : i + n ≤ s.fileSorted.length) {r : Nat} {f : FilePtr} (hf : s.fileSorted[r]? = some f) :
    (planWindow d n i s).plan f =
      if i ≤ r ∧ r < i + n then tierPlan (s.placement.home f) d else s.plan f := by
  induction n generalizing i s with
  | zero => simp [planWindow]
  | succ n ih =>
      have hi : i < s.fileSorted.length := by omega
      have hget : s.fileSorted.getD i 0 = s.fileSorted[i] := by
        simp [List.getD, List.getElem?_eq_getElem hi]
      have hr : s.fileSorted[i] = f ↔ r = i := by
        obtain ⟨hr, rfl⟩ := List.getElem?_eq_some_iff.mp hf
        exact (List.Nodup.getElem_inj_iff hnd).trans eq_comm
      unfold planWindow
      dsimp only
      rw [hget]
      generalize hs₁ : s.modifyFile s.fileSorted[i] (fun file =>
        { file with reassignDisk := if file.assignDisk = some d then none else some d }) = s₁
      have hsorted : s₁.fileSorted = s.fileSorted := by rw [← hs₁]; rfl
      have hplace : s₁.placement = s.placement := by
        rw [← hs₁]
        simp
      have hplan : s₁.plan f =
          if r = i then tierPlan (s.placement.home f) d else s.plan f := by
        rw [← hs₁, plan_modifyFile_eq, Function.update_apply]
        by_cases hri : r = i
        · have hfi := hr.mpr hri
          rw [if_pos hri, if_pos hfi.symm, hfi]
          rfl
        · rw [if_neg hri, if_neg fun hfi => hri (hr.mp hfi.symm)]
      rw [ih (by rw [hsorted]; exact hnd) (by rw [hsorted]; omega) (by rw [hsorted]; exact hf),
        hplan, hplace]
      split_ifs <;> first | rfl | omega

/-- **The outer loop** plans every rank for the disk of its window. -/
theorem planLoop_plan (next : List Nat) {sizes : List Nat} {j i : Nat} {s : State} (hnd : s.fileSorted.Nodup)
    (hnext : ∀ k < sizes.length, next.getD (j + k) 0 = (ends i sizes).getD k 0)
    (hn : i + sizes.sum ≤ s.fileSorted.length) {r : Nat} {f : FilePtr}
    (hf : s.fileSorted[r]? = some f) :
    (∀ k, WindowFrom i (ends i sizes) k r →
      (planLoop next sizes.length j i s).plan f =
        tierPlan (s.placement.home f) (s.disk.getD (j + k) 0)) ∧
    (r < i → (planLoop next sizes.length j i s).plan f = s.plan f) := by
  induction sizes generalizing j i s with
  | nil =>
      refine ⟨fun k hk => ?_, fun _ => rfl⟩
      simp [WindowFrom, ends] at hk
  | cons n sizes ih =>
      have hbound : next.getD j 0 = i + n := hnext 0 (by simp)
      simp only [List.sum_cons] at hn
      rw [List.length_cons, planLoop, hbound]
      have hsub : i + n - i = n := by omega
      have hmax : max i (i + n) = i + n := by omega
      rw [hsub, hmax]
      generalize hs₁ : planWindow (s.disk.getD j 0) n i s = s₁
      have hviews := planWindow_views (s := s) (d := s.disk.getD j 0) (n := n) (i := i)
      rw [hs₁] at hviews
      have hsorted : s₁.fileSorted = s.fileSorted := congrArg Board.order hviews.2.2.2.1
      have hdisk : s₁.disk = s.disk := congrArg Roster.disk hviews.1
      have hplan := planWindow_plan (d := s.disk.getD j 0) (n := n) (i := i) hnd (by omega) hf
      rw [hs₁] at hplan
      obtain ⟨hin, hbelow⟩ := ih (j := j + 1) (i := i + n) (s := s₁) (by rw [hsorted]; exact hnd)
        (fun k hk => by
          have hk' := hnext (k + 1) (by simpa using hk)
          rw [show j + 1 + k = j + (k + 1) by omega, hk']
          simp [ends])
        (by rw [hsorted]; omega) (by rw [hsorted]; exact hf)
      refine ⟨fun k hk => ?_, fun hr => ?_⟩
      · cases k with
        | zero =>
            -- the first window, which the later ones leave alone
            have hr : i ≤ r ∧ r < i + n := by simpa [WindowFrom, ends] using hk
            rw [hbelow hr.2, hplan, if_pos hr]
            rfl
        | succ k =>
            rw [hin k (windowFrom_succ.mp hk), hviews.2.1, hdisk]
            congr 2
            omega
      · rw [hbelow (by omega), hplan, if_neg (by omega)]

/-- **The plan.** With windows for all disks, every rank is planned for the disk of its window. -/
theorem planReassign_plan {s : State} {sizes : List Nat} (hnd : s.fileSorted.Nodup)
    (hnext : s.nextFileIndex = some (ends 0 sizes)) (hcount : s.diskCount = sizes.length)
    (hsum : sizes.sum ≤ s.fileSorted.length) {r k : Nat} {f : FilePtr}
    (hf : s.fileSorted[r]? = some f) (hk : InWindow (ends 0 sizes) k r) :
    (planReassign s).plan f = tierPlan (s.placement.home f) (s.disk.getD k 0) := by
  unfold planReassign
  rw [hnext, hcount]
  have hloop := (planLoop_plan (ends 0 sizes) (j := 0) (i := 0) hnd
    (fun k _ => by rw [Nat.zero_add]) (by omega) hf).1 k hk
  rw [Nat.zero_add] at hloop
  exact hloop

/-! ## A relocation that succeeds -/

/-- Every move of the relocation returns `0`. -/
def MovesSucceed (s : State) (ios : FilePtr → MoveIo) : Prop :=
  Along (fun s f => relocateFile s f (ios f))
    (fun s f => ∀ d, s.plan f = some d →
      (workloadAssignFileToDisk s (some f) (some d) (ios f)).1 = 0) s s.fileHead

/-- **It carries the plan out and drops it.** -/
theorem relocate_home (ios : FilePtr → MoveIo) {files : List FilePtr} {s : State} (hnd : files.Nodup)
    (hmoves : Along (fun s f => relocateFile s f (ios f))
      (fun s f => ∀ d, s.plan f = some d →
        (workloadAssignFileToDisk s (some f) (some d) (ios f)).1 = 0) s files) :
    let t := files.foldl (fun s f => relocateFile s f (ios f)) s
    ∀ g, (t.placement.home g = if g ∈ files then (s.plan g).or (s.placement.home g)
        else s.placement.home g) ∧
      t.plan g = if g ∈ files then none else s.plan g := by
  induction files generalizing s with
  | nil => simp
  | cons f files ih =>
      obtain ⟨hf, hnd⟩ := List.nodup_cons.mp hnd
      obtain ⟨hmove, hmoves⟩ := hmoves
      intro t g
      obtain ⟨hhome, hplan⟩ := ih hnd hmoves g
      have hround : (relocateFile s f (ios f)).placement.home =
          Function.update s.placement.home f ((s.plan f).or (s.placement.home f)) ∧
          (relocateFile s f (ios f)).plan = Function.update s.plan f none := by
        obtain ⟨hnone, hsame⟩ | ⟨d, hd, hplan, ⟨hfail, -⟩ | ⟨-, hplace⟩⟩ :=
          relocateFile_cases s f (ios f)
        · rw [hsame, hnone, Option.none_or, Function.update_eq_self, ← hnone,
            Function.update_eq_self]
          exact ⟨rfl, rfl⟩
        · rw [hmove d hd] at hfail
          exact absurd hfail (by decide)
        · rw [hplace, Placement.move_home, hd]
          exact ⟨rfl, hplan⟩
      simp only [List.foldl_cons, t]
      rw [hhome, hplan, hround.1, hround.2]
      by_cases hgf : g = f
      · subst hgf
        simp [hf]
      · simp [hgf]

/-! ## What every history keeps -/

/-- **Invariant of the running calls** from the loaded state `s₀`, with wrapped counts or not: all files are
    listed and assigned, and the roster is the one loaded. -/
structure Kept (s₀ s : State) : Prop where
  roster : s.roster = s₀.roster
  placed : Placed s
  home : ∀ f ∈ s.fileHead, (s.placement.home f).isSome
  listed : Listed s.fileHead s.board

theorem Running.configured {s : State} {op : Op} (hop : Running s op) : Configured s op := by
  cases op with
  | access file io =>
      cases file with
      | none => exact nofun
      | some f =>
          intro g hg
          exact Option.some.inj hg ▸ hop
  | reset => trivial
  | setRelocate value => trivial
  | toggleRelocate => trivial
  | relocate ios => trivial
  | tick timeStamp => trivial
  | _ => exact absurd hop id

/-- Running calls keep the roster, and they keep the array a listing of the files. -/
theorem Listed.step {s : State} {op : Op} (h : Listed s.fileHead s.board)
    (hnd : s.fileHead.Nodup) (hop : Running s op) :
    (op.run s).roster = s.roster ∧ Listed s.fileHead (op.run s).board := by
  cases op with
  | access file io =>
      cases file with
      | none => exact ⟨rfl, h⟩
      | some f =>
          have hf : f ∈ s.fileHead := hop
          refine ⟨workloadFileAccess_views.1, ?_⟩
          show Listed s.fileHead (workloadFileAccess s (some f) io).2.board
          obtain ⟨-, hsame | ⟨d, -, hsame⟩⟩ | ⟨-, d, r, w, -, -, -, hsame⟩ :=
            workloadFileAccess_cases s f io
          · rw [hsame]
            exact h
          · rw [hsame, accessTransfer_views.2.2.2.1]
            exact h
          · rw [hsame, accessSection_board, accessTransfer_views.2.2.2.1]
            exact h.bubble hnd (h.rank f hf)
  | reset =>
      have hviews := workloadResetFileAccessCount_views (s := s)
      exact ⟨hviews.1, hviews.2.2.1 ▸ h⟩
  | setRelocate value =>
      have hviews := relocateSwitch_views (s := s) (b := value)
      exact ⟨hviews.1, hviews.2.2.1 ▸ h⟩
  | toggleRelocate =>
      have hviews := relocateSwitch_views (s := s) (b := !s.relocate)
      exact ⟨hviews.1, hviews.2.2.1 ▸ h⟩
  | relocate ios =>
      have hviews := @workloadFileRelocate_views s ios
      exact ⟨hviews.1, hviews.2.2.1 ▸ h⟩
  | tick timeStamp => exact ⟨rfl, h⟩
  | _ => exact absurd hop id

theorem Kept.step {s₀ s : State} {op : Op} (h : Kept s₀ s) (hop : Running s op) :
    Kept s₀ (op.run s) := by
  obtain ⟨hplaced, hkeep⟩ := h.placed.step hop.configured
  obtain ⟨hroster, hlisted⟩ := Listed.step h.listed h.placed.built.fileHead_nodup hop
  have hfiles : (op.run s).fileHead = s.fileHead := congrArg Roster.fileHead hroster
  refine ⟨hroster.trans h.roster, hplaced, fun f hf => ?_, hfiles ▸ hlisted⟩
  rw [hfiles] at hf
  exact hkeep f hf (h.home f hf)

theorem Kept.frame {s₀ s s' : State} (h : Kept s₀ s) (hroster : s'.roster = s.roster)
    (hplace : s'.placement = s.placement) (hboard : s'.board = s.board) (hplan : s'.plan = s.plan) :
    Kept s₀ s' := by
  have hfiles : s'.fileHead = s.fileHead := congrArg Roster.fileHead hroster
  refine ⟨hroster.trans h.roster, h.placed.frame hroster hplace ?_, ?_, ?_⟩
  · rw [hplan]
    exact h.placed.plan
  · rw [hfiles, hplace]
    exact h.home
  · rw [hfiles, hboard]
    exact h.listed

theorem Loaded.kept {s : State} (hs : Loaded s) : Kept s s := by
  refine ⟨rfl, ⟨hs.built, hs.seated, fun f hf d hd => ?_⟩, hs.home, hs.rankInv.ranked.toListed⟩
  exact nomatch (hs.plan f hf).symm.trans hd

/-! ## The layout -/

/-- Every file is on the disk its rank belongs on. -/
def TieredBy (next : List Nat) (s : State) : Prop :=
  ∀ (r : Nat) (f : FilePtr), s.fileSorted[r]? = some f →
    ∃ k d, s.disk[k]? = some d ∧ InWindow next k r ∧ (s.files f).assignDisk = some d

/-- The number of files that are on a disk. -/
def filesOn (s : State) (d : DiskPtr) : Nat :=
  s.fileHead.countP fun f => (s.files f).assignDisk == some d

/-- Files on earlier disks were accessed at least as often. -/
def TierOrder (s : State) : Prop :=
  ∀ (i j : Nat) (d e : DiskPtr), i < j → s.disk[i]? = some d → s.disk[j]? = some e →
    ∀ f ∈ s.fileHead, ∀ g ∈ s.fileHead,
      (s.files f).assignDisk = some d → (s.files g).assignDisk = some e →
        (s.files g).readCount + (s.files g).writeCount ≤ (s.files f).readCount + (s.files f).writeCount

/-- The files as a section of an access leaves them listed. -/
theorem Kept.accessSection_listed {s₀ s : State} (h : Kept s₀ s) {r w : Nat} {f : FilePtr}
    (hf : f ∈ s.fileHead) : Listed s.fileHead (accessSection s f r w).board := by
  rw [accessSection_board]
  exact h.listed.bubble h.placed.built.fileHead_nodup (h.listed.rank f hf)

/-- What an access plans for the rank of a file. -/
theorem Kept.accessSection_plan {s₀ s : State} (h : Kept s₀ s) {sizes : List Nat} {r w : Nat}
    {f : FilePtr} (hf : f ∈ s.fileHead) (hnext : s.nextFileIndex = some (ends 0 sizes))
    (hlen : sizes.length = s.diskHead.length) (hsum : sizes.sum = s.fileHead.length)
    {q k : Nat} {g : FilePtr} (hg : (accessSection s f r w).fileSorted[q]? = some g)
    (hk : InWindow (ends 0 sizes) k q) :
    (accessSection s f r w).plan g = tierPlan (s.placement.home g) (s.disk.getD k 0) := by
  have hb := h.placed.built
  have hlisted := h.accessSection_listed (r := r) (w := w) hf
  have hnd : (accessSection s f r w).fileSorted.Nodup :=
    hlisted.perm.nodup_iff.mpr hb.fileHead_nodup
  have hsortedlen : (accessSection s f r w).fileSorted.length = s.fileHead.length :=
    hlisted.perm.length_eq
  unfold accessSection at hg hnd hsortedlen ⊢
  dsimp only at hg hnd hsortedlen ⊢
  generalize hs₁ : sortIndex f (accessCount (countAccess s f r w) f)
    ((countAccess s f r w).files f).index (countAccess s f r w) = s₁ at hg hnd hsortedlen ⊢
  have hroster : s₁.roster = s.roster := by
    rw [← hs₁]
    simp
  have hplace : s₁.placement = s.placement := by
    rw [← hs₁]
    simp
  have hsorted : ∀ file disk, (updateDb (planReassign s₁) file disk).fileSorted =
      s₁.fileSorted := fun file disk =>
    congrArg Board.order (updateDb_views.2.2.2.1.trans planReassign_views.2.2.2.1)
  have hdisk₁ : s₁.disk = s.disk := congrArg Roster.disk hroster
  have hcount₁ : s₁.diskCount = s.diskCount := congrArg Roster.diskCount hroster
  have hcount : s.diskCount = s.diskHead.length := hb.diskCount
  have hnext₁ : s₁.nextFileIndex = s.nextFileIndex := congrArg Roster.nextFileIndex hroster
  rw [hsorted] at hg hnd hsortedlen
  rw [updateDb_views.2.2.2.2.1, planReassign_plan hnd (hnext₁.trans hnext) (by omega) (by omega) hg hk,
    hplace, hdisk₁]

/-- **Layout.** A counted access followed by a relocation that succeeds puts every file in its tier. -/
theorem Kept.tiered {s₀ s : State} (h : Kept s₀ s) {sizes : List Nat} {r w : Nat} {f : FilePtr}
    (hf : f ∈ s.fileHead) (hnext : s.nextFileIndex = some (ends 0 sizes))
    (hlen : sizes.length = s.diskHead.length) (hsum : sizes.sum = s.fileHead.length)
    {ios : FilePtr → MoveIo} (hmoves : MovesSucceed (accessSection s f r w) ios) :
    TieredBy (ends 0 sizes) (workloadFileRelocate (accessSection s f r w) ios) ∧
      ∀ g ∈ s.fileHead, (workloadFileRelocate (accessSection s f r w) ios).plan g = none := by
  have hb := h.placed.built
  have hviews := accessSection_views (s := s) (f := f) (r := r) (w := w)
  have hfiles : (accessSection s f r w).fileHead = s.fileHead := congrArg Roster.fileHead hviews.1
  have hdisk : s.disk = s.diskHead := hb.disk
  have hlisted := h.accessSection_listed (r := r) (w := w) hf
  have hsortedlen : (accessSection s f r w).fileSorted.length = s.fileHead.length :=
    hlisted.perm.length_eq
  have hplan := fun q g k (hg : (accessSection s f r w).fileSorted[q]? = some g) =>
    h.accessSection_plan hf hnext hlen hsum (q := q) (g := g) (k := k) hg
  have hreloc := relocate_home ios (s := accessSection s f r w)
    (by rw [hfiles]; exact hb.fileHead_nodup) hmoves
  refine ⟨?_, fun g hg => ?_⟩
  · intro q g hq
    have hboard : (workloadFileRelocate (accessSection s f r w) ios).fileSorted =
        (accessSection s f r w).fileSorted := congrArg Board.order workloadFileRelocate_views.2.2.1
    have hdisks : (workloadFileRelocate (accessSection s f r w) ios).disk = s.disk :=
      (congrArg Roster.disk workloadFileRelocate_views.1).trans (congrArg Roster.disk hviews.1)
    rw [hboard] at hq
    have hmem : g ∈ s.fileHead := hlisted.perm.subset (List.mem_of_getElem? hq)
    obtain ⟨hqlt, -⟩ := List.getElem?_eq_some_iff.mp hq
    obtain ⟨k, hk, hwin⟩ := exists_window sizes 0 q (by omega)
    rw [Nat.zero_add] at hwin
    have hklt : k < s.disk.length := by rw [hdisk]; omega
    refine ⟨k, s.disk[k], ?_, hwin, ?_⟩
    · rw [hdisks]
      exact List.getElem?_eq_getElem hklt
    · have hhome := (hreloc g).1
      rw [if_pos (by rw [hfiles]; exact hmem), hplan q g k hq hwin, hviews.2.1,
        List.getD_eq_getElem?_getD, List.getElem?_eq_getElem hklt, Option.getD_some] at hhome
      refine hhome.trans ?_
      unfold tierPlan
      split_ifs with hstay
      · rw [Option.none_or, hstay]
      · rfl
  · have hnone := (hreloc g).2
    rw [if_pos (by rw [hfiles]; exact hg)] at hnone
    exact hnone

/-- **Quotas.** In the layout every disk has as many files as its window has ranks. -/
theorem TieredBy.quota {s : State} {sizes : List Nat} (h : TieredBy (ends 0 sizes) s)
    (hb : s.roster.Built) (hlisted : Listed s.fileHead s.board)
    (hlen : sizes.length = s.diskHead.length) (hsum : sizes.sum = s.fileHead.length) {k : Nat}
    {d : DiskPtr} (hd : s.diskHead[k]? = some d) : filesOn s d = sizes.getD k 0 := by
  have hdisk : s.disk = s.diskHead := hb.disk
  have hsortedlen : s.fileSorted.length = s.fileHead.length := hlisted.perm.length_eq
  -- the homes along the array are the layout
  have hmap : s.fileSorted.map (fun f => (s.files f).assignDisk) =
      (layout s.diskHead sizes).map some := by
    refine List.ext_getElem? fun r => ?_
    rw [List.getElem?_map, List.getElem?_map]
    by_cases hr : r < s.fileSorted.length
    · obtain ⟨j, e, he, hwin, hhome⟩ := h r _ (List.getElem?_eq_getElem hr)
      have hlayout : (layout s.diskHead sizes)[r]? = s.diskHead[j]? :=
        layout_getElem? hlen 0 r j (by rwa [Nat.zero_add])
      rw [List.getElem?_eq_getElem hr, hlayout, ← hdisk, he]
      simp [hhome]
    · rw [List.getElem?_eq_none (by omega), List.getElem?_eq_none (by
        rw [length_layout hlen]
        omega)]
      rfl
  calc filesOn s d
      = s.fileSorted.countP fun f => (s.files f).assignDisk == some d :=
        (hlisted.perm.countP_eq _).symm
    _ = (s.fileSorted.map fun f => (s.files f).assignDisk).count (some d) := by
        rw [List.count, List.countP_map]
        rfl
    _ = (layout s.diskHead sizes).count d := by
        rw [hmap]
        exact List.count_map_of_injective _ _ (Option.some_injective _) d
    _ = sizes.getD k 0 := count_layout hlen hb.diskHead_nodup hd

/-- **Order.** In the layout of a ranking, earlier disks have the files accessed more. -/
theorem TieredBy.order {s : State} {sizes : List Nat} (h : TieredBy (ends 0 sizes) s)
    (hb : s.roster.Built) (hranked : RankedByAccess s) : TierOrder s := by
  have hdisk : s.disk = s.diskHead := hb.disk
  have hnd : s.disk.Nodup := by
    rw [hdisk]
    exact hb.diskHead_nodup
  -- the window of a file is the one of its disk
  have hrank : ∀ (i : Nat) (d : DiskPtr) (f : FilePtr), s.disk[i]? = some d → f ∈ s.fileHead →
      (s.files f).assignDisk = some d →
      ∃ r : Nat, s.fileSorted[r]? = some f ∧ InWindow (ends 0 sizes) i r := by
    intro i d f hi hf hhome
    have hget := hranked.rank f hf
    refine ⟨_, hget, ?_⟩
    obtain ⟨k, e, hk, hwin, he⟩ := h _ f hget
    obtain rfl : e = d := Option.some.inj (he.symm.trans hhome)
    obtain ⟨hklt, hkget⟩ := List.getElem?_eq_some_iff.mp hk
    obtain ⟨hilt, higet⟩ := List.getElem?_eq_some_iff.mp hi
    have hki : k = i := (List.Nodup.getElem_inj_iff hnd).mp (hkget.trans higet.symm)
    exact hki ▸ hwin
  intro i j d e hij hi hj f hf g hg hfd hge
  obtain ⟨r, hr, hrw⟩ := hrank i d f hi hf hfd
  obtain ⟨q, hq, hqw⟩ := hrank j e g hj hg hge
  exact hranked.score_le (WindowFrom.lt_of_lt hrw hqw hij).le hr hq

/-- A relocation with nothing planned changes nothing. -/
theorem workloadFileRelocate_eq_self {s : State} (h : ∀ f ∈ s.fileHead, s.plan f = none)
    (ios : FilePtr → MoveIo) : workloadFileRelocate s ios = s := by
  unfold workloadFileRelocate
  generalize s.fileHead = files at h
  induction files with
  | nil => rfl
  | cons f files ih =>
      have hnone : (s.files f).reassignDisk = none := h f List.mem_cons_self
      have hround : relocateFile s f (ios f) = s := by
        unfold relocateFile
        rw [hnone]
      rw [List.foldl_cons, hround]
      exact ih fun g hg => h g (List.mem_cons_of_mem f hg)

/-- Then no move can fail. -/
theorem movesSucceed_of_plan {s : State} (h : ∀ f ∈ s.fileHead, s.plan f = none)
    (ios : FilePtr → MoveIo) : MovesSucceed s ios := by
  unfold MovesSucceed
  generalize s.fileHead = files at h
  induction files with
  | nil => trivial
  | cons f files ih =>
      have hnone := h f List.mem_cons_self
      have hround : relocateFile s f (ios f) = s := by
        obtain ⟨-, hsame⟩ | ⟨d, hd, -⟩ := relocateFile_cases s f (ios f)
        · exact hsame
        · exact nomatch hnone.symm.trans hd
      refine ⟨fun d hd => absurd (hnone.symm.trans hd) nofun, ?_⟩
      dsimp only
      rw [hround]
      exact ih fun g hg => h g (List.mem_cons_of_mem f hg)

/-- **Relocation reaches the tiered layout.** After any history behind a load, a counted access and a
    relocation in which every move succeeds put every file on the disk of its rank; every disk has as many
    files as at load time, a further relocation changes nothing, and as long as no count wrapped, earlier
    disks hold the files accessed more often. -/
theorem relocate_tiers {env : LoadEnv} {s₀ s : State} (hidle : Idle s₀)
    (hload : workloadLoadConfig env s₀ = some (0, s)) {ops : List Op}
    (hops : Along Op.run Running s ops) {next : List Nat}
    (hnext : (exec Op.run s ops).nextFileIndex = some next) {f : FilePtr} {io : AccessIo}
    (hf : f ∈ (exec Op.run s ops).fileHead)
    (hcounted : 0 < (workloadFileAccess (exec Op.run s ops) (some f) io).1) {ios : FilePtr → MoveIo}
    (hmoves : MovesSucceed (workloadFileAccess (exec Op.run s ops) (some f) io).2 ios) :
    let t := workloadFileRelocate (workloadFileAccess (exec Op.run s ops) (some f) io).2 ios
    TieredBy next t ∧
      (∀ d ∈ t.diskHead, filesOn t d = filesOn s d ∧
        (t.disks d).assignFileCount = (s.disks d).assignFileCount) ∧
      (∀ ios', workloadFileRelocate t ios' = t) ∧
      (Along Op.run NoWrap s (ops ++ [.access (some f) io]) → TierOrder t) := by
  have hs := (workloadLoadConfig_ok hidle hload).1
  have hkept : Kept s (exec Op.run s ops) :=
    exec_invariant (fun _ _ h hop => h.step hop) hs.kept hops
  have hkept₁ : Kept s (Op.run (exec Op.run s ops) (.access (some f) io)) := hkept.step hf
  have hkept₂ : Kept s (Op.run (Op.run (exec Op.run s ops) (.access (some f) io)) (.relocate ios)) :=
    hkept₁.step trivial
  intro t
  -- the windows are the file counts at load time
  have hwindows : next = ends 0 (s.diskHead.map s.placement.count) := by
    have hindex : (exec Op.run s ops).nextFileIndex = s.nextFileIndex :=
      congrArg Roster.nextFileIndex hkept.roster
    rcases hs.windows with h | h
    · rw [hindex, h] at hnext
      exact nomatch hnext
    · rw [hindex, h] at hnext
      exact (Option.some.inj hnext).symm
  have hdisks : (exec Op.run s ops).diskHead = s.diskHead := congrArg Roster.diskHead hkept.roster
  have hfiles : (exec Op.run s ops).fileHead = s.fileHead := congrArg Roster.fileHead hkept.roster
  have hdisks₂ : t.diskHead = s.diskHead := congrArg Roster.diskHead hkept₂.roster
  have hfiles₂ : t.fileHead = s.fileHead := congrArg Roster.fileHead hkept₂.roster
  obtain ⟨seats, hseats⟩ := hs.seated
  have hlen : (s.diskHead.map s.placement.count).length = s.diskHead.length := by simp
  have hsum : (s.diskHead.map s.placement.count).sum = s.fileHead.length := by
    rw [hseats.sum_count hs.built.diskHead_nodup hs.built.fileHead_nodup, List.countP_eq_length]
    exact hs.home
  -- the layout, for the state behind the transfer
  obtain ⟨htiered, hplan⟩ : TieredBy (ends 0 (s.diskHead.map s.placement.count)) t ∧
      ∀ g ∈ t.fileHead, t.plan g = none := by
    obtain ⟨hret, -⟩ | ⟨-, d, r, w, -, -, -, hres⟩ := workloadFileAccess_cases (exec Op.run s ops) f io
    · exact absurd hcounted (Int.not_lt.mpr hret)
    · have hviews := @accessTransfer_views (exec Op.run s ops) f d io
      generalize hs₁ : (accessTransfer (exec Op.run s ops) f d io).2 = s₁ at hres hviews
      have hkept' : Kept s s₁ := hkept.frame hviews.1 hviews.2.1 hviews.2.2.2.1 hviews.2.2.2.2.1
      have hfiles₁ : s₁.fileHead = s.fileHead := congrArg Roster.fileHead hkept'.roster
      have hdisks₁ : s₁.diskHead = s.diskHead := congrArg Roster.diskHead hkept'.roster
      have hnext₁ : s₁.nextFileIndex = some (ends 0 (s.diskHead.map s.placement.count)) := by
        have hindex : s₁.nextFileIndex = (exec Op.run s ops).nextFileIndex :=
          congrArg Roster.nextFileIndex hviews.1
        rw [hindex, hnext, hwindows]
      have ht : t = workloadFileRelocate (accessSection s₁ f r w) ios := by
        show workloadFileRelocate _ ios = _
        rw [hres]
      rw [hres] at hmoves
      obtain ⟨h₁, h₂⟩ := hkept'.tiered (by rw [hfiles₁, ← hfiles]; exact hf) hnext₁
        (by rw [hlen, hdisks₁]) (by rw [hsum, hfiles₁]) hmoves
      rw [ht]
      refine ⟨h₁, fun g hg => h₂ g ?_⟩
      rw [hfiles₁, ← hfiles₂, ht]
      exact hg
  have hlisted : Listed t.fileHead t.board := hkept₂.listed
  refine ⟨hwindows ▸ htiered, fun d hd => ?_, workloadFileRelocate_eq_self hplan, fun hwrap => ?_⟩
  · obtain ⟨k, hk⟩ := List.getElem?_of_mem hd
    have hk₀ : s.diskHead[k]? = some d := hdisks₂ ▸ hk
    have hd₀ : d ∈ s.diskHead := hdisks₂ ▸ hd
    have hfilesOn : filesOn t d = s.placement.count d := by
      rw [htiered.quota hkept₂.placed.built hlisted (by rw [hlen, hdisks₂]) (by rw [hsum, hfiles₂]) hk]
      simp [List.getD, hk₀]
    obtain ⟨seats₂, hseats₂⟩ := hkept₂.placed.seated
    refine ⟨?_, ?_⟩
    · rw [hfilesOn, hseats.count_eq hs.built.fileHead_nodup hd₀]
      rfl
    · rw [show (t.disks d).assignFileCount = filesOn t d from
        hseats₂.count_eq hkept₂.placed.built.fileHead_nodup hd, hfilesOn]
      rfl
  · -- without a wrap the array is a ranking
    have hops' : Along Op.run (fun s op => Running s op ∧ NoWrap s op) s
        (ops ++ [.access (some f) io]) := by
      have hrun : Along Op.run Running s (ops ++ [.access (some f) io]) :=
        (along_append _ _ _).mpr ⟨hops, hf, trivial⟩
      exact hrun.and hwrap
    have hinv := exec_invariant (fun _ _ h hop => RankInv.step h hop.1 hop.2) hs.rankInv hops'
    rw [exec_append] at hinv
    have hranked := (hinv.step (show Running _ (.relocate ios) from trivial) trivial).ranked
    exact htiered.order hkept₂.placed.built hranked

/-- The second file of the small configuration is accessed, so the two files change places. -/
theorem relocate_tiers_small :
    TieredBy [1, 2] (workloadFileRelocate
      (workloadFileAccess smallLoaded (some 1) (smallAccess 1)).2 fun _ => smallMove) := by
  refine (relocate_tiers (idle_init _ _ _ _) small_loads (show Along _ _ _ [] from trivial) ?_ ?_ ?_ ?_).1
  · show smallLoaded.nextFileIndex = _
    decide +kernel
  · show 1 ∈ smallLoaded.fileHead
    decide +kernel
  · show 0 < (workloadFileAccess smallLoaded (some 1) (smallAccess 1)).1
    decide +kernel
  · have hplan : ∀ s : State, ∀ f d, s.plan f = some d →
        (workloadAssignFileToDisk s (some f) (some d) smallMove).1 = 0 →
        ∀ e, s.plan f = some e → (workloadAssignFileToDisk s (some f) (some e) smallMove).1 = 0 :=
      fun s f d hd hok e he => Option.some.inj (hd.symm.trans he) ▸ hok
    show MovesSucceed (workloadFileAccess smallLoaded (some 1) (smallAccess 1)).2 fun _ => smallMove
    unfold MovesSucceed
    have hfiles : (workloadFileAccess smallLoaded (some 1) (smallAccess 1)).2.fileHead = [0, 1] := by
      decide +kernel
    rw [hfiles]
    refine ⟨hplan _ 0 1 ?_ ?_, hplan _ 1 0 ?_ ?_, trivial⟩ <;> decide +kernel

/-! ## A wrapped count

The order of the tiers does need its proviso: accessed often enough, the first file of the small configuration
is back at count `0`, while the array, in which nobody stands before it, does not move it. -/

theorem updateDb_relocate (s : State) (file : Option FilePtr) (disk : Option DiskPtr) :
    (updateDb s file disk).relocate = s.relocate :=
  updateDb_rel (R := fun s s' => s'.relocate = s.relocate) (fun _ => rfl) (fun h₁ h₂ => h₂.trans h₁)
    (fun s stmt => by rw [querySet_snd]; rfl) (fun _ _ => rfl) (fun _ _ => rfl) s file disk

theorem planWindow_relocate (d : DiskPtr) (n i : Nat) (s : State) :
    (planWindow d n i s).relocate = s.relocate := by
  induction n generalizing i s with
  | zero => rfl
  | succ n ih => exact ih _ _

theorem planLoop_relocate (next : List Nat) (n i j : Nat) (s : State) :
    (planLoop next n i j s).relocate = s.relocate := by
  induction n generalizing i j s with
  | zero => rfl
  | succ n ih => exact (ih _ _ _).trans (planWindow_relocate _ _ _ _)

theorem sortIndex_relocate (f : FilePtr) (count i : Nat) (s : State) :
    (sortIndex f count i s).relocate = s.relocate := by
  have hfile : ∀ (s : State) f g, (s.modifyFile f g).relocate = s.relocate := fun _ _ _ => rfl
  have hsorted : ∀ (s : State) i f, (s.setSorted i f).relocate = s.relocate := fun _ _ _ => rfl
  induction i generalizing s with
  | zero => rfl
  | succ i ih =>
      unfold sortIndex
      dsimp only
      split_ifs
      · rfl
      · rw [ih, hfile, hsorted, hfile, hsorted]

theorem accessSection_relocate (s : State) (f : FilePtr) (r w : Nat) :
    (accessSection s f r w).relocate = s.relocate := by
  have hplan : ∀ s : State, (planReassign s).relocate = s.relocate := by
    intro s
    unfold planReassign
    split
    · rfl
    · exact planLoop_relocate _ _ _ _ _
  have hcount : (countAccess s f r w).relocate = s.relocate := by
    unfold countAccess
    dsimp only
    split <;> rfl
  unfold accessSection
  dsimp only
  rw [updateDb_relocate, hplan, sortIndex_relocate, hcount]

/-- `n` writes of the first file behind the small load. -/
structure Wrapping (n : Nat) (s : State) : Prop where
  kept : Kept smallLoaded s
  placement : s.placement = smallLoaded.placement
  board : s.board = smallLoaded.board
  plan : ∀ g ∈ s.fileHead, s.plan g = none
  relocate : s.relocate = false
  there : There s 0 0
  read : s.counters.fileRead 0 = 0
  write : s.counters.fileWrite 0 = (1 + n) % 2 ^ 64
  other : s.counters.fileRead 1 + s.counters.fileWrite 1 = 1

theorem wrapping_zero : Wrapping 0 smallLoaded := by
  have hloaded := (workloadLoadConfig_ok (idle_init _ _ _ _) small_loads).1
  refine ⟨hloaded.kept, rfl, rfl, hloaded.plan, ?_, ?_, ?_, ?_, ?_⟩
  · decide +kernel
  · unfold There
    decide +kernel
  · show (smallLoaded.files 0).readCount = 0
    decide +kernel
  · show (smallLoaded.files 0).writeCount = _
    decide +kernel
  · show (smallLoaded.files 1).readCount + (smallLoaded.files 1).writeCount = 1
    decide +kernel

/-- The write of a state behind the small load, as one section. -/
theorem Wrapping.access {n : Nat} {s : State} (h : Wrapping n s) :
    ∃ out, workloadFileAccess s (some 0) (smallAccess 1) =
      (1, accessSection (s.setPath (s.dir 0) (s.files 0).filename (some out)) 0 0 1) := by
  have hhome : (s.files 0).assignDisk = some 0 := by
    show s.placement.home 0 = some 0
    rw [h.placement]
    show (smallLoaded.files 0).assignDisk = some 0
    decide +kernel
  have hcfg : s.cfg = smallLoaded.cfg := congrArg Roster.cfg h.kept.roster
  have hmethod : s.cfg.accessMethod = .rw := by
    rw [hcfg]
    decide +kernel
  have hsize : s.cfg.filesize = 1 := by
    rw [hcfg]
    decide +kernel
  obtain ⟨contents, hcontents⟩ := Option.ne_none_iff_exists'.mp h.there
  have hon : fakeOff s 0 = false := by simp [fakeOff, h.relocate]
  have hwrites : accessWrites s (smallAccess 1) = true := by
    simp [accessWrites, hmethod, smallAccess]
  have hout : fillLoop (smallAccess 1).rounds (1 : Int).toNat 0 (1 : Int).toNat [] ≠ [] := by decide
  refine ⟨fillLoop (smallAccess 1).rounds (1 : Int).toNat 0 (1 : Int).toNat [], ?_⟩
  have htransfer : accessTransfer s 0 0 (smallAccess 1) =
      ((0, 1), s.setPath (s.dir 0) (s.files 0).filename
        (some (fillLoop (smallAccess 1).rounds (1 : Int).toNat 0 (1 : Int).toNat []))) := by
    unfold accessTransfer
    rw [hsize, if_neg (by rw [hon]; exact Bool.false_ne_true), hcontents]
    dsimp only
    rw [if_neg (show ¬ (smallAccess 1).opened = false by decide),
      if_neg (by rw [hwrites]; exact Bool.noConfusion), if_pos (Or.inr hout)]
  unfold workloadFileAccess
  dsimp only
  rw [hhome]
  dsimp only
  rw [if_neg (show ¬ (smallAccess 1).path = false by decide), htransfer]
  rfl

/-- Both files are where they belong. -/
theorem Kept.wrapping_plan {s : State} (h : Kept smallLoaded s) (hmem : 0 ∈ s.fileHead)
    (hplace : s.placement = smallLoaded.placement)
    (hboard : (accessSection s 0 0 1).board = smallLoaded.board) :
    ∀ g ∈ smallLoaded.fileHead, (accessSection s 0 0 1).plan g = none := by
  have hfiles : s.fileHead = smallLoaded.fileHead := congrArg Roster.fileHead h.roster
  have hdisks : s.diskHead = smallLoaded.diskHead := congrArg Roster.diskHead h.roster
  have hdisk : s.disk = smallLoaded.disk := congrArg Roster.disk h.roster
  have hsorted : (accessSection s 0 0 1).fileSorted = smallLoaded.fileSorted :=
    congrArg Board.order hboard
  have hnext : s.nextFileIndex = some (ends 0 [1, 1]) := by
    have hindex : s.nextFileIndex = smallLoaded.nextFileIndex := congrArg Roster.nextFileIndex h.roster
    rw [hindex]
    decide +kernel
  have hlen : [1, 1].length = s.diskHead.length := by
    rw [hdisks]
    decide +kernel
  have hsum : [1, 1].sum = s.fileHead.length := by
    rw [hfiles]
    decide +kernel
  have hget : ∀ g < 2, smallLoaded.fileSorted[g]? = some g := by decide +kernel
  have hhome : ∀ g < 2, (smallLoaded.files g).assignDisk = some (smallLoaded.disk.getD g 0) := by
    decide +kernel
  have hall : ∀ g ∈ smallLoaded.fileHead, g = 0 ∨ g = 1 := by decide +kernel
  intro g hg
  have hlt : g < 2 := by rcases hall g hg with rfl | rfl <;> decide
  have hwin : InWindow (ends 0 [1, 1]) g g := by
    rcases hall g hg with rfl | rfl
    · simp [InWindow, WindowFrom, ends]
    · simp [InWindow, WindowFrom, ends]
  have hplace' : s.placement.home g = some (smallLoaded.disk.getD g 0) := by
    rw [hplace]
    exact hhome g hlt
  rw [h.accessSection_plan hmem hnext hlen hsum (by rw [hsorted]; exact hget g hlt) hwin, hplace',
    hdisk, tierPlan, if_pos rfl]

/-- One more write counts one more. -/
theorem Wrapping.step {n : Nat} {s : State} (h : Wrapping n s) :
    Wrapping (n + 1) (Op.run s (.access (some 0) (smallAccess 1))) := by
  obtain ⟨out, hres⟩ := h.access
  have hmem : 0 ∈ s.fileHead := by
    have hfiles : s.fileHead = smallLoaded.fileHead := congrArg Roster.fileHead h.kept.roster
    rw [hfiles]
    decide +kernel
  have hkept : Kept smallLoaded (Op.run s (.access (some 0) (smallAccess 1))) := h.kept.step hmem
  have hrun : Op.run s (.access (some 0) (smallAccess 1)) =
      accessSection (s.setPath (s.dir 0) (s.files 0).filename (some out)) 0 0 1 := by
    show (workloadFileAccess s (some 0) (smallAccess 1)).2 = _
    rw [hres]
  rw [hrun] at hkept ⊢
  generalize hs₁ : s.setPath (s.dir 0) (s.files 0).filename (some out) = s₁ at hkept ⊢
  have hcounters : s₁.counters = s.counters := by rw [← hs₁]; rfl
  have hplace : s₁.placement = s.placement := by rw [← hs₁]; rfl
  have hboard : s₁.board = s.board := by rw [← hs₁]; rfl
  have hviews := accessSection_views (s := s₁) (f := 0) (r := 0) (w := 1)
  have hrank : s₁.board.rank 0 = 0 := by
    rw [hboard, h.board]
    show (smallLoaded.files 0).index = 0
    decide +kernel
  have hcount := countAccess_counters (s := s₁) (f := 0) 0 1
  rw [hcounters] at hcount
  have hone : ∀ x, x ≠ 0 →
      (accessSection s₁ 0 0 1).counters.fileRead x = s.counters.fileRead x ∧
      (accessSection s₁ 0 0 1).counters.fileWrite x = s.counters.fileWrite x := by
    intro x hx
    rw [hviews.2.2.1, hcount]
    exact ⟨Function.update_of_ne hx _ _, Function.update_of_ne hx _ _⟩
  have hboard' : (accessSection s₁ 0 0 1).board = smallLoaded.board := by
    rw [accessSection_board, hrank, bubble, hboard, h.board]
  refine ⟨hkept, ?_, hboard', ?_, ?_, ?_, ?_, ?_, ?_⟩
  · rw [hviews.2.1, hplace, h.placement]
  · have hkept₁ : Kept smallLoaded s₁ :=
      h.kept.frame (by rw [← hs₁]; rfl) hplace hboard (by rw [← hs₁]; rfl)
    have hmem₁ : 0 ∈ s₁.fileHead := by
      rw [← hs₁]
      exact hmem
    have hplan := hkept₁.wrapping_plan hmem₁ (by rw [hplace, h.placement]) hboard'
    rw [show State.fileHead _ = smallLoaded.fileHead from congrArg Roster.fileHead hkept.roster]
    exact hplan
  · rw [accessSection_relocate, ← hs₁]
    exact h.relocate
  · have hroster : (accessSection s₁ 0 0 1).roster = s₁.roster := hviews.1
    have hfs : (accessSection s₁ 0 0 1).fs = s₁.fs := congrArg Contents.fs hviews.2.2.2.1
    have hpath : (accessSection s₁ 0 0 1).dir 0 = s₁.dir 0 :=
      congrFun (congrArg Roster.dir hroster) 0
    have hname : ((accessSection s₁ 0 0 1).files 0).filename = (s₁.files 0).filename :=
      congrFun (congrArg Roster.filename hroster) 0
    unfold There
    rw [hfs, hpath, hname, ← hs₁, State.setPath_fs, if_pos ⟨rfl, rfl⟩]
    exact Option.some_ne_none out
  · rw [hviews.2.2.1, hcount]
    show Function.update s.counters.fileRead 0 (add64 (s.counters.fileRead 0) 0) 0 = 0
    rw [Function.update_self, h.read]
    rfl
  · rw [hviews.2.2.1, hcount]
    show Function.update s.counters.fileWrite 0 (add64 (s.counters.fileWrite 0) 1) 0 = _
    rw [Function.update_self, h.write, add64, Nat.mod_add_mod]
    rfl
  · rw [(hone 1 (by decide)).1, (hone 1 (by decide)).2]
    exact h.other

/-- Any number of writes. -/
theorem wrapping_run (n : Nat) :
    Wrapping n (exec Op.run smallLoaded (List.replicate n (.access (some 0) (smallAccess 1)))) ∧
      Along Op.run Running smallLoaded (List.replicate n (.access (some 0) (smallAccess 1))) := by
  induction n with
  | zero => exact ⟨wrapping_zero, trivial⟩
  | succ n ih =>
      have hmem : 0 ∈ (exec Op.run smallLoaded
          (List.replicate n (.access (some 0) (smallAccess 1)))).fileHead := by
        have hfiles := congrArg Roster.fileHead ih.1.kept.roster
        rw [show State.fileHead _ = smallLoaded.fileHead from hfiles]
        decide +kernel
      rw [List.replicate_succ', exec_append, along_append]
      exact ⟨ih.1.step, ih.2, hmem, trivial⟩

/-- When the count wraps with one more write, the relocation behind it leaves the file on the first disk. -/
theorem order_of_wrap (n : Nat) (hn : (n + 2) % 2 ^ 64 = 0) :
    let ops : List Op := List.replicate n (.access (some 0) (smallAccess 1))
    let access := workloadFileAccess (exec Op.run smallLoaded ops) (some 0) (smallAccess 1)
    Along Op.run Running smallLoaded ops ∧
      (exec Op.run smallLoaded ops).nextFileIndex = some [1, 2] ∧ 0 < access.1 ∧
      MovesSucceed access.2 (fun _ => smallMove) ∧
      ¬ TierOrder (workloadFileRelocate access.2 fun _ => smallMove) := by
  intro ops access
  obtain ⟨hwrap, hrun⟩ := wrapping_run n
  have hwrap₁ := hwrap.step
  obtain ⟨out, hres⟩ := hwrap.access
  have hplan : ∀ g ∈ access.2.fileHead, access.2.plan g = none := hwrap₁.plan
  refine ⟨hrun, ?_, ?_, movesSucceed_of_plan hplan _, ?_⟩
  · have hindex : (exec Op.run smallLoaded ops).nextFileIndex = smallLoaded.nextFileIndex :=
      congrArg Roster.nextFileIndex hwrap.kept.roster
    rw [hindex]
    decide +kernel
  · show 0 < (workloadFileAccess _ (some 0) (smallAccess 1)).1
    rw [hres]
    exact Int.one_pos
  · rw [workloadFileRelocate_eq_self hplan]
    intro horder
    have hdisk : access.2.disk = smallLoaded.disk := congrArg Roster.disk hwrap₁.kept.roster
    have hfiles : access.2.fileHead = smallLoaded.fileHead := congrArg Roster.fileHead hwrap₁.kept.roster
    have hhome : ∀ f, (access.2.files f).assignDisk = (smallLoaded.files f).assignDisk :=
      fun f => congrFun (congrArg Placement.home hwrap₁.placement) f
    have hle := horder 0 1 0 1 (by decide) (by rw [hdisk]; decide +kernel)
      (by rw [hdisk]; decide +kernel) 0 (by rw [hfiles]; decide +kernel) 1
      (by rw [hfiles]; decide +kernel) (by rw [hhome]; decide +kernel) (by rw [hhome]; decide +kernel)
    have hread : (access.2.files 0).readCount = 0 := hwrap₁.read
    have hwrite : (access.2.files 0).writeCount = (1 + (n + 1)) % 2 ^ 64 := hwrap₁.write
    have hother : (access.2.files 1).readCount + (access.2.files 1).writeCount = 1 := hwrap₁.other
    omega

/-- **Without the proviso the order of the tiers fails**: after `2^64 - 2` writes of the first file, one more
    wraps its count. -/
theorem relocate_order_wraps :
    let ops : List Op := List.replicate (2 ^ 64 - 2) (.access (some 0) (smallAccess 1))
    let access := workloadFileAccess (exec Op.run smallLoaded ops) (some 0) (smallAccess 1)
    workloadLoadConfig (smallEnv [] small_fits none) smallStart = some (0, smallLoaded) ∧
      Along Op.run Running smallLoaded ops ∧
      (exec Op.run smallLoaded ops).nextFileIndex = some [1, 2] ∧ 0 < access.1 ∧
      MovesSucceed access.2 (fun _ => smallMove) ∧
      ¬ TierOrder (workloadFileRelocate access.2 fun _ => smallMove) :=
  ⟨small_loads, order_of_wrap (2 ^ 64 - 2) (by decide)⟩

end Workload
