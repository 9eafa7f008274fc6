import Workload.Lib.Shuffle
import Workload.Lib.Tiers
import Workload.Correctness.Loading

/-!
# `Correctness.Assigning` — every file gets its disk

The loop behind the object stages deals the files out: in the order of the list, or drawn from the end of
`m_file_even`. `dealt s k` are the files of the first `k` rounds; the loop invariant `Dealing` says that
these are the assigned ones, so a file drawn has no disk yet and its assignment cannot fail.

`Roster.Built` and `Assigned` hold from here on to the end of the configuration.
-/

namespace Workload

open Intrusive

/-! ## The roster -/

/-- What a load fixes for good: chains, arrays, ids and names agree with each other. -/
structure Roster.Built (r : Roster) : Prop where
  disk : r.disk = r.diskHead
  diskCount : r.diskCount = r.diskHead.length
  diskHead_lt : r.diskHead.length < 2 ^ 20
  diskHead_nodup : r.diskHead.Nodup
  fileHead_nodup : r.fileHead.Nodup
  fileOrdered : r.fileOrdered = r.fileHead
  fileCount : r.fileCount = r.fileHead.length
  fileHead_le : r.fileHead.length ≤ defWorkloadConfigMaxFiles
  fileId : ∀ i f, r.fileHead[i]? = some f → r.fileId f = i + 1
  filename : ∀ i f, r.fileHead[i]? = some f → r.filename f = formatFilename r.cfg (i + 1)
  diskId : ∀ i d, r.diskHead[i]? = some d → r.diskId d = i + 1

/-- The array of the next indices is no part of it. -/
theorem Roster.Built.index {r : Roster} (h : r.Built) (next : Option (List Nat)) :
    ({ r with nextFileIndex := next } : Roster).Built :=
  ⟨h.disk, h.diskCount, h.diskHead_lt, h.diskHead_nodup, h.fileHead_nodup, h.fileOrdered, h.fileCount,
    h.fileHead_le, h.fileId, h.filename, h.diskId⟩

theorem Prepared.built {s : State} (hs : Prepared s) : s.roster.Built where
  disk := hs.disk
  diskCount := hs.diskCount
  diskHead_lt := hs.diskHead_lt
  diskHead_nodup := hs.diskHead_nodup
  fileHead_nodup := hs.fileHead_nodup
  fileOrdered := hs.fileOrdered
  fileCount := hs.fileCount
  fileHead_le := hs.fileHead_le.trans hs.filecount_le
  fileId i f hif := (hs.files i f hif).id
  filename i f hif := (hs.files i f hif).filename
  diskId i d hid := (hs.disks i d hid).id

theorem Roster.Built.fileHead_lt {r : Roster} (h : r.Built) : r.fileHead.length < 2 ^ 64 :=
  h.fileHead_le.trans_lt (by decide)

theorem Prepared.file {s : State} (hs : Prepared s) {f : FilePtr} (hf : f ∈ s.fileHead) :
    ∃ i, FreshFile s.cfg i (s.files f) := by
  obtain ⟨i, hi⟩ := List.getElem?_of_mem hf
  exact ⟨i, hs.files i f hi⟩

theorem Prepared.diskFresh {s : State} (hs : Prepared s) {d : DiskPtr} (hd : d ∈ s.diskHead) :
    ∃ i, FreshDisk i (s.disks d) := by
  obtain ⟨i, hi⟩ := List.getElem?_of_mem hd
  exact ⟨i, hs.disks i d hi⟩

/-- Nobody is on a list. -/
theorem Prepared.seated {s : State} (hs : Prepared s) :
    Seated s.diskHead s.fileHead s.placement fun _ => [] := by
  have hhome : ∀ f ∈ s.fileHead, s.placement.home f = none := by
    intro f hf
    obtain ⟨i, hfresh⟩ := hs.file hf
    exact hfresh.assignDisk
  constructor
  · intro d hd
    obtain ⟨i, hfresh⟩ := hs.diskFresh hd
    show IsList _ (s.disks d).assignFile _
    rw [hfresh.assignFile]
    exact isList_nil _
  · intro d _
    exact List.nil_subset _
  · intro d _ f hf
    rw [hhome f hf]
    simp
  · intro f hf d hd
    rw [hhome f hf] at hd
    exact nomatch hd
  · intro d hd
    obtain ⟨i, hfresh⟩ := hs.diskFresh hd
    exact hfresh.assignFileCount

/-! ## One round -/

/-- The files the first `k` rounds dealt out. -/
def dealt (s : State) (k : Nat) : List FilePtr :=
  if s.cfg.filesAssignMethod = 2 then s.fileEven.drop (s.fileCount - k) else s.fileOrdered.take k

/-- **A round draws a file that was not dealt yet.** -/
theorem assignFile_ok {s : State} {k : Nat} (rand : Nat) (hs : s.roster.Built)
    (heven : s.fileEven.Perm s.fileHead) (hk : k < s.fileCount) :
    ∃ f even, assignFile s (k + 1) rand = (f, { s with fileEven := even }) ∧
      even.Perm s.fileHead ∧ f ∈ s.fileHead ∧ f ∉ dealt s k ∧
      ∀ g, g ∈ dealt { s with fileEven := even } (k + 1) ↔ g = f ∨ g ∈ dealt s k := by
  have hcount : s.fileCount = s.fileHead.length := hs.fileCount
  have hordered : s.fileOrdered = s.fileHead := hs.fileOrdered
  have hnodup : s.fileHead.Nodup := hs.fileHead_nodup
  unfold assignFile dealt
  by_cases hmethod : s.cfg.filesAssignMethod = 2
  · have hlen : s.fileEven.length = s.fileCount := heven.length_eq.trans hcount.symm
    obtain ⟨i, hi⟩ : ∃ i, s.fileCount - k = i + 1 := ⟨s.fileCount - k - 1, by omega⟩
    have hi' : s.fileCount - (k + 1) = i := by omega
    have hlt : i < s.fileEven.length := by omega
    have hr : rand % (i + 1) ≤ i := Nat.le_of_lt_succ (Nat.mod_lt _ (Nat.succ_pos i))
    have hperm : (Shuffle.exchange s.fileEven (rand % (i + 1)) i).Perm s.fileEven :=
      Shuffle.exchange_perm (hr.trans_lt hlt) hlt
    -- the pick comes out of the part not dealt
    have hpick : s.fileEven.getD (rand % (i + 1)) 0 ∈ s.fileEven.take (i + 1) :=
      (Shuffle.perm_take_exchange hr hlt).subset List.mem_cons_self
    simp only [hmethod, if_true, Nat.add_sub_cancel, hi, hi']
    refine ⟨_, _, rfl, hperm.trans heven, heven.subset (List.mem_of_mem_take hpick), ?_, ?_⟩
    · intro hdrop
      have hnd : s.fileEven.Nodup := heven.nodup_iff.mpr hnodup
      exact List.disjoint_take_drop hnd (Nat.le_refl _) hpick hdrop
    · intro g
      exact (congrArg (g ∈ ·) (Shuffle.drop_exchange hr hlt)).to_iff.trans List.mem_cons
  · have hlt : k < s.fileHead.length := by omega
    have hget : s.fileHead.getD k 0 = s.fileHead[k] := by simp [List.getD, hlt]
    simp only [hmethod, if_false, Nat.add_sub_cancel]
    refine ⟨_, s.fileEven, rfl, heven, ?_, ?_, ?_⟩
    · rw [hordered, hget]
      exact List.getElem_mem hlt
    · rw [hordered, hget]
      intro hmem
      refine List.disjoint_take_drop hnodup (Nat.le_refl k) hmem ?_
      rw [List.drop_eq_getElem_cons hlt]
      exact List.mem_cons_self
    · intro g
      rw [hordered, hget, List.take_add_one, List.getElem?_eq_getElem hlt, Option.toList_some,
        List.mem_append, List.mem_singleton]
      exact or_comm

/-- Assigning a file that has no disk succeeds without touching the disks' contents. -/
theorem assign_fresh {s : State} {f : FilePtr} (d : DiskPtr) (io : MoveIo)
    (hhome : (s.files f).assignDisk = none) :
    workloadAssignFileToDisk s (some f) (some d) io =
      (0, assignedSection
        (linkFile (s.modifyFile f fun file => { file with created := false }) f d) f d none) := by
  simp [workloadAssignFileToDisk, workloadMoveAssignFile, hhome]

/-- Clearing a flag that is clear changes no contents. -/
theorem contents_clearCreated {s : State} {f : FilePtr} (h : (s.files f).created = false) :
    (s.modifyFile f fun file => { file with created := false }).contents = s.contents := by
  refine Contents.ext rfl ?_
  funext g
  show ((s.modifyFile f _).files g).created = (s.files g).created
  rw [State.modifyFile_files]
  split_ifs with hg
  · rw [hg, h]
  · rfl

/-! ## The loop -/

/-- **Invariant of the assignment loop**, started in `s₀`: exactly the files dealt out have a disk, and
    nothing but the placement changed. -/
structure Dealing (s₀ s : State) (k : Nat) : Prop where
  roster : s.roster = s₀.roster
  counters : s.counters = s₀.counters
  board : s.board = s₀.board
  plan : s.plan = s₀.plan
  contents : s.contents = s₀.contents
  sampled : s.sampled = s₀.sampled
  threads : s.threads = s₀.threads
  even : s.fileEven.Perm s.fileHead
  seated : ∃ seats, Seated s.diskHead s.fileHead s.placement seats
  home : ∀ f ∈ s.fileHead, (s.placement.home f).isSome ↔ f ∈ dealt s k

theorem Prepared.dealing {s : State} (hs : Prepared s) : Dealing s s 0 := by
  refine ⟨rfl, rfl, rfl, rfl, rfl, rfl, rfl, .of_eq hs.fileEven, ⟨_, hs.seated⟩, ?_⟩
  intro f hf
  obtain ⟨i, hfresh⟩ := hs.file hf
  have hnone : s.placement.home f = none := hfresh.assignDisk
  have hlen : s.fileEven.length ≤ s.fileCount := by rw [hs.fileEven, hs.fileCount]
  unfold dealt
  split_ifs
  · simp [hnone, List.drop_eq_nil_of_le hlen]
  · simp [hnone]

theorem linkFile_fileEven (s : State) (f : FilePtr) (d : DiskPtr) :
    (linkFile s f d).fileEven = s.fileEven := by
  have hback : ∀ (s : State) head, (backLink s head f).fileEven = s.fileEven := by
    intro s head
    unfold backLink
    cases head <;> rfl
  unfold linkFile
  dsimp only [State.modifyFile, State.modifyDisk]
  rw [hback]

/-- The assignment leaves `m_file_even` alone. -/
theorem assignedSection_fileEven (s : State) (f : FilePtr) (d : DiskPtr) :
    (assignedSection s f d none).fileEven = s.fileEven :=
  updateDb_rel (R := fun s s' => s'.fileEven = s.fileEven) (fun _ => rfl)
    (fun h₁ h₂ => h₂.trans h₁) (fun s stmt => by rw [querySet_snd]; rfl) (fun _ _ => rfl)
    (fun _ _ => rfl) _ _ _

/-- One round keeps the invariant. -/
theorem Dealing.round {s₀ s : State} {k : Nat} {f : FilePtr} {even : List FilePtr} {d : DiskPtr}
    (io : MoveIo) (h : Dealing s₀ s k) (hb : s.roster.Built)
    (hcreated : ∀ f ∈ s.fileHead, (s.files f).created = false)
    (heven : even.Perm s.fileHead) (hf : f ∈ s.fileHead) (hnew : f ∉ dealt s k)
    (hdealt : ∀ g, g ∈ dealt { s with fileEven := even } (k + 1) ↔ g = f ∨ g ∈ dealt s k)
    (hd : d ∈ s.diskHead) :
    ∃ s', workloadAssignFileToDisk { s with fileEven := even } (some f) (some d) io = (0, s') ∧
      Dealing s₀ s' (k + 1) := by
  have hhome : (s.files f).assignDisk = none := by
    have hnone : ¬ (s.placement.home f).isSome := mt (h.home f hf).mp hnew
    exact Option.not_isSome_iff_eq_none.mp hnone
  refine ⟨_, assign_fresh d io hhome, ?_⟩
  generalize hs₁ : ({ s with fileEven := even } : State) = s₁
  have hroster : s₁.roster = s.roster := by rw [← hs₁]; rfl
  have hclear := contents_clearCreated (s := s₁) (f := f) (by rw [← hs₁]; exact hcreated f hf)
  generalize hs' : assignedSection
    (linkFile (s₁.modifyFile f fun file => { file with created := false }) f d) f d none = s'
  have hplace : s'.placement = s.placement.link f d := by
    rw [← hs', assignedSection_views.2.1, linkFile_placement, ← hs₁]
    simp
    rfl
  have hroster' : s'.roster = s.roster := by
    rw [← hs', ← hroster]
    simp
  have hfiles' : s'.fileHead = s.fileHead := congrArg Roster.fileHead hroster'
  have hdisks' : s'.diskHead = s.diskHead := congrArg Roster.diskHead hroster'
  have heven' : s'.fileEven = even := by
    rw [← hs', assignedSection_fileEven, linkFile_fileEven, ← hs₁]
    rfl
  have hdealt' : dealt s' (k + 1) = dealt s₁ (k + 1) := by
    have hcfg : s'.cfg = s₁.cfg := congrArg Roster.cfg (hroster'.trans hroster.symm)
    have hcount : s'.fileCount = s₁.fileCount := congrArg Roster.fileCount (hroster'.trans hroster.symm)
    have hordered : s'.fileOrdered = s₁.fileOrdered :=
      congrArg Roster.fileOrdered (hroster'.trans hroster.symm)
    have heven₁ : s'.fileEven = s₁.fileEven := by rw [heven', ← hs₁]
    rw [dealt, dealt, hcfg, hcount, hordered, heven₁]
  constructor
  · rw [hroster', h.roster]
  · rw [← hs', ← h.counters, ← show s₁.counters = s.counters by rw [← hs₁]; rfl]
    simp
  · rw [← hs', ← h.board, ← show s₁.board = s.board by rw [← hs₁]; rfl]
    simp
  · rw [← hs', ← h.plan, ← show s₁.plan = s.plan by rw [← hs₁]; rfl]
    simp
  · rw [← hs', ← h.contents, ← show s₁.contents = s.contents by rw [← hs₁]; rfl, ← hclear]
    simp
  · rw [← hs', ← h.sampled, ← show s₁.sampled = s.sampled by rw [← hs₁]; rfl]
    simp
  · rw [← hs', ← h.threads, ← show s₁.threads = s.threads by rw [← hs₁]; rfl]
    simp
  · rw [heven', hfiles']
    exact heven
  · obtain ⟨seats, hseats⟩ := h.seated
    rw [hplace, hfiles', hdisks']
    exact ⟨_, hseats.link hb.fileHead_lt hf hhome hd⟩
  · intro g hg
    rw [hfiles'] at hg
    rw [hdealt', ← hs₁, hdealt g, hplace]
    by_cases hgf : g = f
    · simp [hgf, Placement.link]
    · simp [hgf, Placement.link, h.home g hg]

/-- **The assignment loop.** When it runs through, the files of all rounds have a disk. -/
theorem assignLoop_ok {env : LoadEnv} {s₀ s s' : State} {n k : Nat} (hb : s₀.roster.Built)
    (hcreated : ∀ f ∈ s₀.fileHead, (s₀.files f).created = false) (h : Dealing s₀ s k)
    (hn : k + n = s₀.fileCount) (hrun : assignLoop env n (k + 1) s = .ok s') :
    Dealing s₀ s' s₀.fileCount := by
  induction n generalizing k s with
  | zero =>
      obtain rfl := Except.ok.inj hrun
      rw [← hn]
      exact h
  | succ n ih =>
      have hbs : s.roster.Built := h.roster ▸ hb
      have hcount : s.fileCount = s₀.fileCount := congrArg Roster.fileCount h.roster
      have hhead : s.fileHead = s₀.fileHead := congrArg Roster.fileHead h.roster
      have hdisk : s.disk = s.diskHead := hbs.disk
      have hflag : ∀ f, (s.files f).created = (s₀.files f).created :=
        fun f => congrFun (congrArg Contents.created h.contents) f
      obtain ⟨f, even, hassign, heven, hf, hnew, hdealt⟩ :=
        assignFile_ok (k := k) (env.rand (k + 1)) hbs h.even (by omega)
      unfold assignLoop at hrun
      split_ifs at hrun
      rw [hassign] at hrun
      dsimp only at hrun
      split at hrun
      · exact nomatch hrun
      · split at hrun
        · exact nomatch hrun
        · rename_i d hget
          have hd : d ∈ s.diskHead := hdisk ▸ List.mem_of_getElem? hget
          obtain ⟨s₁, hs₁, hdealing⟩ := h.round (env.assignIo f) hbs
            (fun f hf => by rw [hflag]; exact hcreated f (hhead ▸ hf)) heven hf hnew hdealt hd
          rw [hs₁] at hrun
          exact ih hdealing (by omega) hrun

/-! ## Windows and service start -/

/-- `m_next_file_index` are the end points of consecutive windows as large as the file counts. -/
theorem nextFileIndexLoop_eq (s : State) (ds : List DiskPtr) (start : Nat)
    (h : start + (ds.map s.placement.count).sum < 2 ^ 64) :
    nextFileIndexLoop s ds start = Tiers.ends start (ds.map s.placement.count) := by
  induction ds generalizing start with
  | nil => rfl
  | cons d ds ih =>
      simp only [List.map_cons, List.sum_cons] at h
      have hadd : add64 start (s.disks d).assignFileCount = start + s.placement.count d :=
        add64_of_lt (show start + s.placement.count d < 2 ^ 64 by omega)
      simp only [nextFileIndexLoop, hadd, List.map_cons, Tiers.ends]
      rw [ih _ (by omega)]

@[simp] theorem openService_views {env : LoadEnv} {s : State} {d : DiskPtr}
    (h : (s.disks d).service = none) :
    (openService env s d).roster = s.roster ∧ (openService env s d).placement = s.placement ∧
    (openService env s d).counters = s.counters ∧ (openService env s d).board = s.board ∧
    (openService env s d).plan = s.plan ∧ (openService env s d).contents = s.contents ∧
    (openService env s d).sampled = s.sampled := by
  simp [openService, closeService, h]

/-- Only the service of `d` is opened. -/
theorem openService_disks {env : LoadEnv} {s : State} {d e : DiskPtr} (h : (s.disks d).service = none) :
    ((openService env s d).disks e).service =
      if e = d then (if env.openService d then some .start else none) else (s.disks e).service := by
  simp only [openService, closeService, h, State.modifyDisk_disks]
  split_ifs <;> rfl

/-- Opening the services one after the other. -/
theorem openServices_ok (env : LoadEnv) (ds : List DiskPtr) {s : State} (hnd : ds.Nodup)
    (hidle : ∀ d ∈ ds, (s.disks d).service = none) :
    let s' := ds.foldl (openService env) s
    (s'.roster = s.roster ∧ s'.placement = s.placement ∧ s'.counters = s.counters ∧
      s'.board = s.board ∧ s'.plan = s.plan ∧ s'.contents = s.contents ∧ s'.sampled = s.sampled) ∧
    (s'.diskReadyCount = s.diskReadyCount ∧ s'.diskErrorCount = s.diskErrorCount) ∧
    ∀ d, (s'.disks d).service = (s.disks d).service ∨ d ∈ ds ∧ (s'.disks d).service = some .start := by
  induction ds generalizing s with
  | nil => exact ⟨⟨rfl, rfl, rfl, rfl, rfl, rfl, rfl⟩, ⟨rfl, rfl⟩, fun _ => Or.inl rfl⟩
  | cons d ds ih =>
      obtain ⟨hd, hnd⟩ := List.nodup_cons.mp hnd
      have hnone := hidle d List.mem_cons_self
      have hcounts : (openService env s d).diskReadyCount = s.diskReadyCount ∧
          (openService env s d).diskErrorCount = s.diskErrorCount := by
        simp only [openService, closeService, hnone]
        exact ⟨rfl, rfl⟩
      obtain ⟨hviews, hready, hpc⟩ := ih (s := openService env s d) hnd fun e he => by
        have hed : e ≠ d := fun hed => hd (hed ▸ he)
        rw [openService_disks hnone, if_neg hed]
        exact hidle e (List.mem_cons_of_mem d he)
      refine ⟨by simpa [hnone] using hviews, by rw [← hcounts.1, ← hcounts.2]; exact hready, ?_⟩
      intro e
      rcases hpc e with hpc | ⟨he, hpc⟩
      · rw [List.foldl_cons, hpc, openService_disks hnone]
        by_cases hed : e = d
        · subst hed
          simp only [if_true, hnone]
          split_ifs
          · exact Or.inr ⟨List.mem_cons_self, rfl⟩
          · exact Or.inl rfl
        · simp [hed]
      · exact Or.inr ⟨List.mem_cons_of_mem d he, hpc⟩

/-- Everything is assigned and the services stand at their start; the rest is as in the prepared `s₀`. -/
structure Started (s₀ s : State) : Prop where
  roster : ∃ next, s.roster = { s₀.roster with nextFileIndex := next } ∧
    (next = none ∨ next = some (Tiers.ends 0 (s.diskHead.map s.placement.count)))
  seated : ∃ seats, Seated s.diskHead s.fileHead s.placement seats
  home : ∀ f ∈ s.fileHead, (s.placement.home f).isSome
  counters : s.counters = s₀.counters
  board : s.board = s₀.board
  plan : s.plan = s₀.plan
  contents : s.contents = s₀.contents
  sampled : s.sampled = s₀.sampled
  service : ∀ d, (s.disks d).service = none ∨ d ∈ s.diskHead ∧ (s.disks d).service = some .start
  ready : s.diskReadyCount = 0
  error : s.diskErrorCount = 0

theorem Started.built {s₀ s : State} (h : Started s₀ s) (h₀ : Prepared s₀) : s.roster.Built := by
  obtain ⟨next, hroster, -⟩ := h.roster
  rw [hroster]
  exact h₀.built.index next

/-- **From the prepared state to the start of the services.** -/
theorem startServices_ok {env : LoadEnv} {s₀ s : State} (h₀ : Prepared s₀)
    (hrun : assignLoop env s₀.fileCount 1 s₀ = .ok s) :
    Started s₀ (startServices env (indexFiles env s)) := by
  have hcreated : ∀ f ∈ s₀.fileHead, (s₀.files f).created = false := by
    intro f hf
    obtain ⟨i, hfresh⟩ := h₀.file hf
    exact hfresh.created
  have h := assignLoop_ok h₀.built hcreated h₀.dealing (Nat.zero_add _) hrun
  have hb : s.roster.Built := h.roster ▸ h₀.built
  have hcount : s.fileCount = s₀.fileCount := congrArg Roster.fileCount h.roster
  obtain ⟨seats, hseats⟩ := h.seated
  have hdisk : s.disk = s.diskHead := hb.disk
  have hidle : ∀ d, (s.disks d).service = none := fun d =>
    (congrFun (congrArg Threads.pc h.threads) d).trans (h₀.service d)
  -- the counters of the disks sum to the number of files, so the windows do not wrap
  have hsum : 0 + (s.disk.map s.placement.count).sum < 2 ^ 64 := by
    have hle := List.countP_le_length (p := fun f => (s.placement.home f).isSome) (l := s.fileHead)
    have hlt : s.fileHead.length < 2 ^ 64 := hb.fileHead_lt
    rw [hdisk, hseats.sum_count hb.diskHead_nodup hb.fileHead_nodup]
    omega
  have hnext := nextFileIndexLoop_eq s s.disk 0 hsum
  unfold startServices
  obtain ⟨⟨hroster, hplace, hcounters, hboard, hplan, hcontents, hsampled⟩, ⟨hready, herror⟩, hpc⟩ :=
    openServices_ok env (indexFiles env s).disk
      (s := (indexFiles env s).setServiceCounts 0 0) (hdisk ▸ hb.diskHead_nodup) fun d _ => hidle d
  generalize (indexFiles env s).disk.foldl (openService env) ((indexFiles env s).setServiceCounts 0 0) = s'
    at hroster hplace hcounters hboard hplan hcontents hsampled hready herror hpc ⊢
  have hfiles' : s'.fileHead = s.fileHead := congrArg Roster.fileHead hroster
  have hdisks' : s'.diskHead = s.diskHead := congrArg Roster.diskHead hroster
  have hplace' : s'.placement = s.placement := hplace
  constructor
  · refine ⟨if env.nextFileIndex then some (nextFileIndexLoop s s.disk 0) else none, ?_, ?_⟩
    · rw [hroster, ← h.roster]
      rfl
    · rw [hdisks', hplace', hnext, hdisk]
      split_ifs
      · exact Or.inr rfl
      · exact Or.inl rfl
  · rw [hfiles', hdisks', hplace']
    exact ⟨seats, hseats⟩
  · intro f hf
    rw [hfiles'] at hf
    rw [hplace', h.home f hf]
    -- after all rounds everything is dealt
    unfold dealt
    split_ifs
    · rw [hcount, Nat.sub_self, List.drop_zero]
      exact h.even.mem_iff.mpr hf
    · have hordered : s.fileOrdered = s.fileHead := hb.fileOrdered
      have hlen : s.fileCount = s.fileHead.length := hb.fileCount
      rw [hordered, ← hcount, hlen, List.take_length]
      exact hf
  · exact hcounters.trans h.counters
  · exact hboard.trans h.board
  · exact hplan.trans h.plan
  · exact hcontents.trans h.contents
  · exact hsampled.trans h.sampled
  · intro d
    rcases hpc d with hpc | ⟨hd, hpc⟩
    · exact Or.inl (hpc.trans (hidle d))
    · refine Or.inr ⟨?_, hpc⟩
      rw [hdisks', ← hdisk]
      exact hd
  · exact hready
  · exact herror

end Workload
