import Workload.Correctness.Lists

/-!
# `Correctness.Conservation` — no access is counted twice or lost

Files, disks and the workload count on their own, in five different sections. `Counters.Balanced` says what
holds between any two of them: the totals are the sums over the files, and the disks together have counted
at most the totals (a disk is cleared more often than the workload is). Each section of the code is a
function on the view `Counters`, and each of these functions keeps the balance.

**Main result.** `counters_conserved`: the balance, and with it the bounds on the usage figures of the
screen, in every state of every interleaving of sections from the moment the objects exist.
-/

namespace Workload

open Intrusive Trace

/-! ## Balanced counters -/

/-- The three levels of counters, over the disks and the files of two chains. -/
structure Counters.Balanced (c : Counters) (disks : List DiskPtr) (files : List FilePtr) : Prop where
  read : c.read = (files.map c.fileRead).sum
  write : c.write = (files.map c.fileWrite).sum
  diskRead : (disks.map c.diskRead).sum ≤ c.read
  diskWrite : (disks.map c.diskWrite).sum ≤ c.write
  read_lt : c.read < 2 ^ 64
  write_lt : c.write < 2 ^ 64

variable {c : Counters} {disks : List DiskPtr} {files : List FilePtr} {f : FilePtr} {d : DiskPtr}

/-- One counter goes up by `k`, and so does the sum. -/
theorem sum_add64 {l : List Nat} {g : Nat → Nat} {a k : Nat} (hnd : l.Nodup) (ha : a ∈ l)
    (hlt : (l.map g).sum + k < 2 ^ 64) :
    (l.map (Function.update g a (add64 (g a) k))).sum = (l.map g).sum + k := by
  have hle : g a ≤ (l.map g).sum := Sums.le_sum_map ha
  refine Sums.sum_map_add hnd ha (fun x _ hx => Function.update_of_ne hx _ _) ?_
  rw [Function.update_self]
  exact add64_of_lt (by omega)

/-- The counters of some of the owners are cleared. -/
theorem sum_cleared_le (l m : List Nat) (g : Nat → Nat) :
    (l.map fun x => if x ∈ m then 0 else g x).sum ≤ (l.map g).sum := by
  refine List.sum_le_sum fun x _ => ?_
  split_ifs
  · exact Nat.zero_le _
  · exact Nat.le_refl _

theorem Counters.Balanced.access (h : c.Balanced disks files) (hdisks : disks.Nodup)
    (hfiles : files.Nodup) (hf : f ∈ files) {home : Option DiskPtr} (hhome : ∀ d ∈ home, d ∈ disks)
    {r w : Nat} (hread : c.read + r < 2 ^ 64) (hwrite : c.write + w < 2 ^ 64) :
    (c.access f home r w).Balanced disks files := by
  have hr : add64 c.read r = c.read + r := add64_of_lt hread
  have hw : add64 c.write w = c.write + w := add64_of_lt hwrite
  have hdiskRead := h.diskRead
  have hdiskWrite := h.diskWrite
  constructor
  · show add64 c.read r = _
    rw [hr, h.read]
    exact (sum_add64 hfiles hf (h.read ▸ hread)).symm
  · show add64 c.write w = _
    rw [hw, h.write]
    exact (sum_add64 hfiles hf (h.write ▸ hwrite)).symm
  · show _ ≤ add64 c.read r
    rw [hr]
    cases home with
    | none => exact hdiskRead.trans (Nat.le_add_right _ _)
    | some d =>
        show (disks.map (Function.update c.diskRead d (add64 (c.diskRead d) r))).sum ≤ _
        rw [sum_add64 hdisks (hhome d rfl) (by omega)]
        omega
  · show _ ≤ add64 c.write w
    rw [hw]
    cases home with
    | none => exact hdiskWrite.trans (Nat.le_add_right _ _)
    | some d =>
        show (disks.map (Function.update c.diskWrite d (add64 (c.diskWrite d) w))).sum ≤ _
        rw [sum_add64 hdisks (hhome d rfl) (by omega)]
        omega
  · show add64 c.read r < _
    rw [hr]
    exact hread
  · show add64 c.write w < _
    rw [hw]
    exact hwrite

/-- What a service counts is an access of one write, on its own disk. -/
theorem Counters.serve_eq (hread : c.fileRead f < 2 ^ 64) (hdisk : c.diskRead d < 2 ^ 64)
    (htotal : c.read < 2 ^ 64) : c.serve f d = c.access f (some d) 0 1 := by
  refine Counters.ext ?_ rfl ?_ rfl ?_ rfl
  · exact (Function.update_eq_self_iff.mpr (add64_of_lt hread)).symm
  · exact (Function.update_eq_self_iff.mpr (add64_of_lt hdisk)).symm
  · exact (add64_of_lt (show c.read + 0 < 2 ^ 64 from htotal)).symm

theorem Counters.Balanced.serve (h : c.Balanced disks files) (hdisks : disks.Nodup)
    (hfiles : files.Nodup) (hf : f ∈ files) (hd : d ∈ disks) (hwrite : c.write + 1 < 2 ^ 64) :
    (c.serve f d).Balanced disks files := by
  have htotal := h.read_lt
  have hread : c.fileRead f ≤ c.read := h.read ▸ Sums.le_sum_map hf
  have hdisk : c.diskRead d ≤ c.read := (Sums.le_sum_map hd).trans h.diskRead
  rw [Counters.serve_eq (by omega) (by omega) htotal]
  exact h.access hdisks hfiles hf (fun e he => Option.some.inj he ▸ hd) (by omega) hwrite

theorem Counters.Balanced.restart (h : c.Balanced disks files) (cleared : List DiskPtr) :
    (c.restart cleared).Balanced disks files where
  read := h.read
  write := h.write
  diskRead := (sum_cleared_le disks cleared c.diskRead).trans h.diskRead
  diskWrite := (sum_cleared_le disks cleared c.diskWrite).trans h.diskWrite
  read_lt := h.read_lt
  write_lt := h.write_lt

theorem Counters.balanced_reset (c : Counters) (disks : List DiskPtr) (files : List FilePtr) :
    (c.reset disks files).Balanced disks files := by
  have hzero : ∀ (l : List Nat) (g : Nat → Nat), (l.map fun x => if x ∈ l then 0 else g x).sum = 0 :=
    fun l g => Sums.sum_map_zero fun x hx => if_pos hx
  refine ⟨?_, ?_, ?_, ?_, Nat.two_pow_pos 64, Nat.two_pow_pos 64⟩
  · exact (hzero files _).symm
  · exact (hzero files _).symm
  · exact (hzero disks _).le
  · exact (hzero disks _).le

/-! ## Pointers -/

/-- The file a service is about to write or count. -/
def ServicePc.file : ServicePc → Option FilePtr
  | .walk file => file
  | .count file => some file
  | _ => none

/-- Lists and services name nodes of the chains only. -/
structure Anchored (s : State) : Prop where
  built : s.roster.Built
  seated : ∃ seats, Seated s.diskHead s.fileHead s.placement seats
  next : ∀ f ∈ s.fileHead, ∀ g, s.placement.links.next f = some g → g ∈ s.fileHead
  service : ∀ d pc, s.threads.pc d = some pc →
    d ∈ s.diskHead ∧ ∀ f, pc.file = some f → f ∈ s.fileHead

variable {s s' : State}

theorem Anchored.frame (h : Anchored s) (hroster : s'.roster = s.roster)
    (hplace : s'.placement = s.placement)
    (hservice : ∀ d pc, s'.threads.pc d = some pc →
      d ∈ s.diskHead ∧ ∀ f, pc.file = some f → f ∈ s.fileHead) : Anchored s' := by
  have hfiles : s'.fileHead = s.fileHead := congrArg Roster.fileHead hroster
  have hdisks : s'.diskHead = s.diskHead := congrArg Roster.diskHead hroster
  refine ⟨hroster ▸ h.built, ?_, ?_, ?_⟩
  · rw [hfiles, hdisks, hplace]
    exact h.seated
  · rw [hfiles, hplace]
    exact h.next
  · rw [hfiles, hdisks]
    exact hservice

/-- A section that leaves lists and services alone. -/
theorem Anchored.quiet (h : Anchored s) (hroster : s'.roster = s.roster)
    (hplace : s'.placement = s.placement) (hthreads : s'.threads = s.threads) : Anchored s' :=
  h.frame hroster hplace (hthreads ▸ h.service)

/-- A file leaves its disk. -/
theorem Anchored.unlink (h : Anchored s) (hroster : s'.roster = s.roster)
    (hthreads : s'.threads = s.threads) (hf : f ∈ s.fileHead)
    (hplace : s'.placement = s.placement.leave f) : Anchored s' := by
  have hfiles : s'.fileHead = s.fileHead := congrArg Roster.fileHead hroster
  have hdisks : s'.diskHead = s.diskHead := congrArg Roster.diskHead hroster
  cases hhome : s.placement.home f with
  | none =>
      have hsame : s'.placement = s.placement := by
        rw [hplace, Placement.leave, hhome]
      exact h.quiet hroster hsame hthreads
  | some old =>
      have hleave : s'.placement = s.placement.unlink f old := by
        rw [hplace, Placement.leave, hhome]
      obtain ⟨seats, hseats⟩ := h.seated
      refine ⟨hroster ▸ h.built, ?_, ?_, ?_⟩
      · rw [hfiles, hdisks, hleave]
        exact ⟨_, hseats.unlink h.built.fileHead_lt hf hhome⟩
      · rw [hfiles, hleave]
        intro x hx g hg
        simp only [Placement.unlink, Links.unlink] at hg
        split_ifs at hg
        · exact h.next f hf g hg
        · exact h.next x hx g hg
      · rw [hfiles, hdisks, hthreads]
        exact h.service

/-- A file joins a disk. -/
theorem Anchored.link (h : Anchored s) (hroster : s'.roster = s.roster)
    (hthreads : s'.threads = s.threads) (hf : f ∈ s.fileHead) (hd : d ∈ s.diskHead)
    (hhome : s.placement.home f = none) (hplace : s'.placement = s.placement.link f d) :
    Anchored s' := by
  have hfiles : s'.fileHead = s.fileHead := congrArg Roster.fileHead hroster
  have hdisks : s'.diskHead = s.diskHead := congrArg Roster.diskHead hroster
  obtain ⟨seats, hseats⟩ := h.seated
  refine ⟨hroster ▸ h.built, ?_, ?_, ?_⟩
  · rw [hfiles, hdisks, hplace]
    exact ⟨_, hseats.link h.built.fileHead_lt hf hhome hd⟩
  · rw [hfiles, hplace]
    intro x hx g hg
    simp only [Placement.link, Links.pushFront] at hg
    split_ifs at hg
    · -- the old head of the list is one of its files
      rw [(hseats.list d hd).1.head_eq] at hg
      exact hseats.inside d hd (List.mem_of_mem_head? hg)
    · exact h.next x hx g hg
  · rw [hfiles, hdisks, hthreads]
    exact h.service

/-! ## Sections -/

/-- A service goes on at `pc`; `s₁` is the state before that write. -/
theorem Anchored.goOn {s₁ : State} {old pc : ServicePc} (h : Anchored s)
    (hold : s.threads.pc d = some old) (hroster : s₁.roster = s.roster)
    (hplace : s₁.placement = s.placement) (hpcs : s₁.threads.pc = s.threads.pc)
    (hfile : ∀ f, pc.file = some f → f ∈ s.fileHead) : Anchored (setPc s₁ d pc) := by
  refine h.frame (setPc_views.1.trans hroster) (setPc_views.2.1.trans hplace) ?_
  intro e pc' hpc'
  have hset : (if e = d then some pc else s₁.threads.pc e) = some pc' :=
    (setPc_service s₁ d e pc).symm.trans hpc'
  split_ifs at hset with he
  · obtain rfl := Option.some.inj hset
    exact ⟨he ▸ (h.service d old hold).1, hfile⟩
  · rw [hpcs] at hset
    exact h.service e pc' hset

/-- A step of a service stays on the list it walks. -/
theorem Anchored.diskService (h : Anchored s) (d : DiskPtr) (io : ServiceIo) :
    Anchored (diskServiceStep s d io) := by
  unfold diskServiceStep
  cases hpc : (s.disks d).service with
  | none => exact h
  | some pc =>
      have hold : s.threads.pc d = some pc := hpc
      obtain ⟨hd, hpcfile⟩ := h.service d pc hold
      cases pc with
      | start =>
          obtain ⟨seats, hseats⟩ := h.seated
          have hhead : ∀ f, ServicePc.file (.walk (s.disks d).assignFile) = some f → f ∈ s.fileHead := by
            intro f hf
            have hlist : (seats d).head? = some f := (hseats.list d hd).1.head_eq.symm.trans hf
            exact hseats.inside d hd (List.mem_of_mem_head? hlist)
          dsimp only
          split_ifs
          · exact h.goOn hold rfl rfl rfl nofun
          · refine h.goOn hold (by simp) (by simp) ?_ hhead
            exact State.modifyDisk_field (p := Disk.service) fun _ => rfl
          · exact h.goOn hold rfl rfl rfl hhead
      | walk file =>
          cases file with
          | none => exact h.goOn hold rfl rfl rfl nofun
          | some f =>
              dsimp only
              split_ifs
              · exact h.goOn hold rfl rfl rfl nofun
              · exact h.goOn hold rfl rfl rfl nofun
              · exact h.goOn hold rfl rfl rfl hpcfile
      | count f =>
          have hf : f ∈ s.fileHead := hpcfile f rfl
          refine h.goOn hold serviceSection_views.1 serviceSection_views.2.1
            (congrArg Threads.pc serviceSection_views.2.2.2.2.2.2) fun g hg => h.next f hf g ?_
          exact hg
      | leave => exact h.goOn hold rfl rfl rfl nofun
      | ready => exact h
      | failed => exact h

/-- Starting services leaves every service where it was, closes it or puts it at its start. -/
theorem startServices_pc (env : LoadEnv) (s : State) (d : DiskPtr) :
    (startServices env s).threads.pc d = s.threads.pc d ∨
      (startServices env s).threads.pc d = none ∨
      d ∈ s.disk ∧ (startServices env s).threads.pc d = some .start := by
  have hopen : ∀ (s : State) e, (openService env s e).threads.pc d =
      if d = e then (if env.openService e then some .start else none) else s.threads.pc d := by
    intro s e
    have hclose : ∀ x, x ≠ e → (closeService s e).threads.pc x = s.threads.pc x := by
      intro x hx
      unfold closeService
      cases (s.disks e).service with
      | none => rfl
      | some pc =>
          show ((State.modifyDisk _ e _).disks x).service = _
          rw [State.modifyDisk_disks, if_neg hx]
          cases (s.disks e).createdPath <;> rfl
    simp only [openService, State.threads, State.modifyDisk_disks]
    split_ifs with hde hok
    · rfl
    · rfl
    · exact hclose d hde
  have hloop : ∀ (ds : List DiskPtr) (s : State),
      (ds.foldl (openService env) s).threads.pc d = s.threads.pc d ∨
        (ds.foldl (openService env) s).threads.pc d = none ∨
        d ∈ ds ∧ (ds.foldl (openService env) s).threads.pc d = some .start := by
    intro ds
    induction ds with
    | nil => exact fun s => Or.inl rfl
    | cons e ds ih =>
        intro s
        have he := hopen s e
        rcases ih (openService env s e) with h | h | ⟨hmem, h⟩
        · rw [List.foldl_cons, h, he]
          split_ifs with hde hok
          · exact Or.inr (Or.inr ⟨hde ▸ List.mem_cons_self, rfl⟩)
          · exact Or.inr (Or.inl rfl)
          · exact Or.inl rfl
        · exact Or.inr (Or.inl h)
        · exact Or.inr (Or.inr ⟨List.mem_cons_of_mem e hmem, h⟩)
  exact hloop s.disk (s.setServiceCounts 0 0)

/-- What the sections are promised: files and disks are those of the configuration, and a file that joins a
    disk is on no list. -/
def SectionValid (s : State) : Section → Prop
  | .access f _ _ => f ∈ s.fileHead
  | .moveOut f _ _ => f ∈ s.fileHead
  | .linkIn f d => f ∈ s.fileHead ∧ d ∈ s.diskHead ∧ (s.files f).assignDisk = none
  | _ => True

/-- **Step lemma.** -/
theorem Anchored.step {sec : Section} (h : Anchored s) (hok : SectionValid s sec) :
    Anchored (sec.run s) := by
  cases sec with
  | service d io => exact h.diskService d io
  | transfer f d io =>
      have hviews := @accessTransfer_views s f d io
      exact h.quiet hviews.1 hviews.2.1 hviews.2.2.2.2.2.2
  | access f r w =>
      exact h.quiet accessSection_views.1 accessSection_views.2.1 accessSection_views.2.2.2.2.2
  | reset =>
      have hviews := @workloadResetFileAccessCount_views s
      exact h.quiet hviews.1 hviews.2.1 hviews.2.2.2.2.2.2
  | setRelocate value => exact h.quiet rfl rfl rfl
  | restart =>
      have hviews := @relocateSection_views s
      exact h.quiet hviews.1 hviews.2.1 hviews.2.2.2.2.2.2
  | moveOut f d io =>
      have hviews := @workloadMoveAssignFile_views s f d io
      obtain ⟨-, hplace⟩ | ⟨-, hplace⟩ := move_placement s f d io
      · exact h.quiet hviews.1 hplace hviews.2.2.2.2.2
      · exact h.unlink hviews.1 hviews.2.2.2.2.2 hok hplace
  | linkIn f d =>
      obtain ⟨hf, hd, hhome⟩ := hok
      have hviews := @linkFile_views s f d
      exact h.link hviews.1 hviews.2.2.2.2.2.2 hf hd hhome (linkFile_placement s f d)
  | moved f d oldDisk =>
      have hviews := assignedSection_frame (s := s) (f := f) (d := d) oldDisk
      exact h.quiet hviews.roster hviews.placement hviews.threads
  | unplan f => exact h.quiet (by simp [Section.run]) (by simp [Section.run]) rfl
  | index env => exact ⟨h.built.index _, h.seated, h.next, h.service⟩
  | start env =>
      obtain ⟨hroster, hplace, -, -⟩ := startServices_views env s
      have hdisk : s.disk = s.diskHead := h.built.disk
      refine h.frame hroster hplace fun d pc hpc => ?_
      have hpc : (startServices env s).threads.pc d = some pc := hpc
      rcases startServices_pc env s d with hsame | hnone | ⟨hd, hstart⟩
      · exact h.service d pc (hsame.symm.trans hpc)
      · exact nomatch hnone.symm.trans hpc
      · obtain rfl := Option.some.inj (hstart.symm.trans hpc)
        exact ⟨hdisk ▸ hd, nofun⟩
  | tick timeStamp => exact h.quiet rfl rfl rfl
  | screen height =>
      have hviews := @workloadUpdateScreen_views s height
      exact h.quiet hviews.1 hviews.2.1 hviews.2.2.2.2.2.2

/-! ## Balance -/

/-- The counters are balanced. -/
structure Balance (s : State) : Prop extends Anchored s where
  counters : s.counters.Balanced s.diskHead s.fileHead

/-- No counter passes `2^64-1`. -/
def SectionFits (s : State) : Section → Prop
  | .service d _ => ∀ f, (s.disks d).service = some (.count f) → s.writeCount + 1 < 2 ^ 64
  | .access _ r w => s.readCount + r < 2 ^ 64 ∧ s.writeCount + w < 2 ^ 64
  | _ => True

/-- What a step of a service counts. -/
theorem diskService_counters (s : State) (d : DiskPtr) (io : ServiceIo) :
    (diskServiceStep s d io).counters = s.counters ∨
      ∃ f, (s.disks d).service = some (.count f) ∧
        (diskServiceStep s d io).counters = s.counters.serve f d := by
  unfold diskServiceStep
  cases hpc : (s.disks d).service with
  | none => exact Or.inl rfl
  | some pc =>
      cases pc with
      | start =>
          dsimp only
          split_ifs <;> simp
      | walk file =>
          cases file with
          | none => exact Or.inl (by simp)
          | some f =>
              dsimp only
              split_ifs <;> simp
      | count f => exact Or.inr ⟨f, rfl, setPc_views.2.2.1.trans serviceSection_counters⟩
      | leave => exact Or.inl (by simp)
      | ready => exact Or.inl rfl
      | failed => exact Or.inl rfl

/-- **Every section keeps the counters balanced.** -/
theorem Balance.balanced_run {sec : Section} (h : Balance s) (hok : SectionValid s sec)
    (hfits : SectionFits s sec) : (sec.run s).counters.Balanced s.diskHead s.fileHead := by
  have hsame : (sec.run s).counters = s.counters →
      (sec.run s).counters.Balanced s.diskHead s.fileHead := fun he => he ▸ h.counters
  cases sec with
  | service d io =>
      obtain hcounters | ⟨f, hpc, hcounters⟩ := diskService_counters s d io
      · exact hsame hcounters
      · obtain ⟨hd, hfile⟩ := h.service d _ hpc
        show (diskServiceStep s d io).counters.Balanced _ _
        rw [hcounters]
        exact h.counters.serve h.built.diskHead_nodup h.built.fileHead_nodup (hfile f rfl) hd
          (hfits f hpc)
  | transfer f d io => exact hsame accessTransfer_views.2.2.1
  | access f r w =>
      obtain ⟨seats, hseats⟩ := h.seated
      show (accessSection s f r w).counters.Balanced _ _
      rw [accessSection_views.2.2.1, countAccess_counters]
      exact h.counters.access h.built.diskHead_nodup h.built.fileHead_nodup hok
        (hseats.target f hok) hfits.1 hfits.2
  | reset =>
      show (workloadResetFileAccessCount s).counters.Balanced _ _
      rw [workloadResetFileAccessCount_counters]
      exact Counters.balanced_reset _ _ _
  | setRelocate value => exact h.counters
  | restart =>
      show (relocateSection s).counters.Balanced _ _
      rw [relocateSection_counters]
      exact h.counters.restart _
  | moveOut f d io => exact hsame workloadMoveAssignFile_views.2.1
  | linkIn f d => exact hsame linkFile_views.2.1
  | moved f d oldDisk => exact hsame (assignedSection_frame oldDisk).counters
  | unplan f => exact hsame (by simp [Section.run])
  | index env => exact h.counters
  | start env => exact hsame (startServices_views env s).2.2.1
  | tick timeStamp => exact h.counters
  | screen height => exact hsame workloadUpdateScreen_views.2.2.1

/-- No section changes the chains. -/
theorem section_chains (s : State) (sec : Section) :
    (sec.run s).fileHead = s.fileHead ∧ (sec.run s).diskHead = s.diskHead := by
  have hchains : (sec.run s).roster = s.roster →
      (sec.run s).fileHead = s.fileHead ∧ (sec.run s).diskHead = s.diskHead :=
    fun hroster => ⟨congrArg Roster.fileHead hroster, congrArg Roster.diskHead hroster⟩
  cases sec with
  | index env => exact ⟨rfl, rfl⟩
  | start env => exact hchains (startServices_views env s).1
  | moved f d oldDisk => exact hchains (assignedSection_frame oldDisk).roster
  | _ => exact hchains (by simp [Section.run])

/-- **Step lemma.** -/
theorem Balance.step {sec : Section} (h : Balance s) (hok : SectionValid s sec)
    (hfits : SectionFits s sec) : Balance (sec.run s) := by
  obtain ⟨hfiles, hdisks⟩ := section_chains s sec
  refine ⟨h.toAnchored.step hok, ?_⟩
  rw [hfiles, hdisks]
  exact h.balanced_run hok hfits

/-! ## Usage -/

/-- Below `2^64/100000` the figure is the rounded-down share. -/
theorem usageRatio_eq {part : Nat} (hpart : part ≤ s.readCount + s.writeCount)
    (hlt : (s.readCount + s.writeCount) * 100000 < 2 ^ 64) :
    usageRatio s part = part * 100000 / (s.readCount + s.writeCount) := by
  have htotal : add64 s.readCount s.writeCount = s.readCount + s.writeCount :=
    add64_of_lt (by omega)
  have hmul : part * 100000 ≤ (s.readCount + s.writeCount) * 100000 := Nat.mul_le_mul_right _ hpart
  unfold usageRatio
  dsimp only
  rw [htotal]
  split_ifs with hpos
  · have hshare : part * 100000 / (s.readCount + s.writeCount) ≤ 100000 :=
      Nat.div_le_of_le_mul hmul
    rw [Nat.mod_eq_of_lt (Nat.lt_of_le_of_lt hmul hlt), Nat.mod_eq_of_lt (by omega)]
  · rw [Nat.eq_zero_of_not_pos hpos, Nat.div_zero]

/-- **A column of the screen**: parts that together do not exceed the total have shares that together do not
    exceed the whole. -/
theorem usage_column {l : List DiskPtr} {part : DiskPtr → Nat}
    (hparts : (l.map part).sum ≤ s.readCount + s.writeCount)
    (hlt : (s.readCount + s.writeCount) * 100000 < 2 ^ 64) :
    (l.map fun d => usageRatio s (part d)).sum ≤ 100000 := by
  have hshares : (l.map fun d => usageRatio s (part d)) =
      l.map fun d => part d * 100000 / (s.readCount + s.writeCount) :=
    List.map_congr_left fun d hd => usageRatio_eq ((Sums.le_sum_map hd).trans hparts) hlt
  rw [hshares]
  rcases Nat.eq_zero_or_pos (s.readCount + s.writeCount) with hzero | hpos
  · rw [hzero, Sums.sum_map_zero fun d _ => Nat.div_zero _]
    exact Nat.zero_le _
  · exact Sums.sum_shares_le hpos hparts

/-- The loop over `m_assign_file` adds up the counters of the files on the list. -/
theorem usageLoop_mod {p h : Option FilePtr} {l : List FilePtr} {n : Nat} (r w : Nat)
    (hseg : Seg s.placement.links p h l) (hn : l.length ≤ n) :
    usageLoop s n h (r % 2 ^ 64) (w % 2 ^ 64) =
      some ((r + (l.map s.counters.fileRead).sum) % 2 ^ 64,
        (w + (l.map s.counters.fileWrite).sum) % 2 ^ 64) := by
  induction l generalizing p h n r w with
  | nil =>
      obtain rfl : h = none := hseg
      cases n <;> rfl
  | cons f l ih =>
      obtain ⟨rfl, -, hrest⟩ := hseg
      have hadd : ∀ a b, add64 (a % 2 ^ 64) b = (a + b) % 2 ^ 64 := fun a b => Nat.mod_add_mod _ _ _
      cases n with
      | zero => exact absurd hn (Nat.not_succ_le_zero _)
      | succ n =>
          show usageLoop s n (s.placement.links.next f) (add64 _ (s.counters.fileRead f))
            (add64 _ (s.counters.fileWrite f)) = _
          rw [hadd, hadd, ih _ _ hrest (Nat.le_of_succ_le_succ hn), List.map_cons, List.map_cons,
            List.sum_cons, List.sum_cons, Nat.add_assoc, Nat.add_assoc]

/-- Sums below the bound of the counters are what the loop returns. -/
theorem usageLoop_eq {p h : Option FilePtr} {l : List FilePtr} {n : Nat}
    (hseg : Seg s.placement.links p h l) (hn : l.length ≤ n)
    (hread : (l.map s.counters.fileRead).sum < 2 ^ 64) (hwrite : (l.map s.counters.fileWrite).sum < 2 ^ 64) :
    usageLoop s n h 0 0 = some ((l.map s.counters.fileRead).sum, (l.map s.counters.fileWrite).sum) := by
  have hloop := usageLoop_mod 0 0 hseg hn
  rwa [Nat.zero_add, Nat.zero_add, Nat.mod_eq_of_lt hread, Nat.mod_eq_of_lt hwrite] at hloop

/-! ## Conservation -/

/-- The totals are the sums over the files and at least the sums over the disks; and while 100000 times
    the total fits into 64 bits, both usage figures of every disk are at most 100000, and so are the two
    columns. -/
structure Conserved (s : State) : Prop where
  read : s.readCount = (s.fileHead.map fun f => (s.files f).readCount).sum
  write : s.writeCount = (s.fileHead.map fun f => (s.files f).writeCount).sum
  diskRead : (s.diskHead.map fun d => (s.disks d).readCount).sum ≤ s.readCount
  diskWrite : (s.diskHead.map fun d => (s.disks d).writeCount).sum ≤ s.writeCount
  diskUsage : (s.readCount + s.writeCount) * 100000 < 2 ^ 64 →
    (∀ d ∈ s.diskHead, diskUsage s d ≤ 100000) ∧ (s.diskHead.map (diskUsage s)).sum ≤ 100000
  fileUsage : (s.readCount + s.writeCount) * 100000 < 2 ^ 64 →
    ∃ figure : DiskPtr → Nat, (∀ d ∈ s.diskHead, fileUsage s d = some (figure d) ∧ figure d ≤ 100000) ∧
      (s.diskHead.map figure).sum ≤ 100000

/-- The first column. -/
theorem Balance.diskUsage (h : Balance s) (hlt : (s.readCount + s.writeCount) * 100000 < 2 ^ 64) :
    (s.diskHead.map (diskUsage s)).sum ≤ 100000 := by
  have hread : (s.diskHead.map s.counters.diskRead).sum ≤ s.readCount := h.counters.diskRead
  have hwrite : (s.diskHead.map s.counters.diskWrite).sum ≤ s.writeCount := h.counters.diskWrite
  have hsum : (s.diskHead.map fun d => s.counters.diskRead d + s.counters.diskWrite d).sum ≤
      s.readCount + s.writeCount := by
    rw [List.sum_map_add]
    exact Nat.add_le_add hread hwrite
  have hfigure : s.diskHead.map (Workload.diskUsage s) = s.diskHead.map fun d =>
      usageRatio s (s.counters.diskRead d + s.counters.diskWrite d) := by
    refine List.map_congr_left fun d hd => ?_
    have hle := (Sums.le_sum_map hd).trans hsum
    exact congrArg (usageRatio s) (add64_of_lt (show s.counters.diskRead d + s.counters.diskWrite d < _ by omega))
  rw [hfigure]
  exact usage_column hsum hlt

/-- The second column. -/
theorem Balance.fileUsage (h : Balance s) (hlt : (s.readCount + s.writeCount) * 100000 < 2 ^ 64) :
    ∃ figure : DiskPtr → Nat, (∀ d ∈ s.diskHead, fileUsage s d = some (figure d)) ∧
      (s.diskHead.map figure).sum ≤ 100000 := by
  obtain ⟨seats, hseats⟩ := h.seated
  have hread : (s.fileHead.map s.counters.fileRead).sum = s.readCount := h.counters.read.symm
  have hwrite : (s.fileHead.map s.counters.fileWrite).sum = s.writeCount := h.counters.write.symm
  -- the lists share no file, so together they count at most the totals
  have hgroups : (s.diskHead.map fun d =>
      ((seats d).map fun f => s.counters.fileRead f + s.counters.fileWrite f).sum).sum ≤
      s.readCount + s.writeCount := by
    rw [← hread, ← hwrite, ← List.sum_map_add]
    exact Sums.sum_groups_le h.built.diskHead_nodup (fun d hd => (hseats.list d hd).2) hseats.inside
      fun d hd e he hde => hseats.disjoint hd he hde
  refine ⟨_, fun d hd => ?_, usage_column hgroups hlt⟩
  have hle := (Sums.le_sum_map hd).trans hgroups
  rw [List.sum_map_add] at hle
  have htotal : add64 s.readCount s.writeCount = s.readCount + s.writeCount :=
    add64_of_lt (by omega)
  unfold Workload.fileUsage
  rw [htotal]
  split_ifs with hpos
  · have hhead : (s.disks d).assignFile = s.placement.head d := rfl
    have hloop := usageLoop_eq (hseats.list d hd).1 (hseats.length_le hd) (by omega) (by omega)
    rw [hhead, hloop, List.sum_map_add]
    exact congrArg some (congrArg (usageRatio s) (add64_of_lt (by omega)))
  · rw [usageRatio_eq (by rw [List.sum_map_add]; exact hle) hlt, Nat.eq_zero_of_not_pos hpos, Nat.div_zero]

/-- **The balance gives the bounds of the screen.** -/
theorem Balance.conserved (h : Balance s) : Conserved s where
  read := h.counters.read
  write := h.counters.write
  diskRead := h.counters.diskRead
  diskWrite := h.counters.diskWrite
  diskUsage hlt :=
    have hsum := h.diskUsage hlt
    ⟨fun _ hd => (Sums.le_sum_map hd).trans hsum, hsum⟩
  fileUsage hlt := by
    obtain ⟨figure, hfigure, hsum⟩ := h.fileUsage hlt
    exact ⟨figure, fun d hd => ⟨hfigure d hd, (Sums.le_sum_map hd).trans hsum⟩, hsum⟩

/-- Nothing is on a list and no service runs. -/
theorem Prepared.anchored (hs : Prepared s) : Anchored s := by
  refine ⟨hs.built, ⟨_, hs.seated⟩, ?_, ?_⟩
  · intro f hf g hg
    obtain ⟨i, hfresh⟩ := hs.file hf
    exact nomatch hfresh.assignNext.symm.trans hg
  · intro d pc hpc
    exact nomatch (hs.service d).symm.trans hpc

/-- Nothing is counted yet. -/
theorem Prepared.balance (hs : Prepared s) : Balance s := by
  have hread : (s.fileHead.map s.counters.fileRead).sum = 0 := by
    refine Sums.sum_map_zero fun f hf => ?_
    obtain ⟨i, hfresh⟩ := hs.file hf
    exact hfresh.readCount
  have hwrite : (s.fileHead.map s.counters.fileWrite).sum = 0 := by
    refine Sums.sum_map_zero fun f hf => ?_
    obtain ⟨i, hfresh⟩ := hs.file hf
    exact hfresh.writeCount
  have hdiskRead : (s.diskHead.map s.counters.diskRead).sum = 0 := by
    refine Sums.sum_map_zero fun d hd => ?_
    obtain ⟨i, hfresh⟩ := hs.diskFresh hd
    exact hfresh.readCount
  have hdiskWrite : (s.diskHead.map s.counters.diskWrite).sum = 0 := by
    refine Sums.sum_map_zero fun d hd => ?_
    obtain ⟨i, hfresh⟩ := hs.diskFresh hd
    exact hfresh.writeCount
  have hr : s.counters.read = 0 := hs.readCount
  have hw : s.counters.write = 0 := hs.writeCount
  refine ⟨hs.anchored, ?_, ?_, ?_, ?_, ?_, ?_⟩
  · rw [hr, hread]
  · rw [hw, hwrite]
  · rw [hdiskRead]
    exact Nat.zero_le _
  · rw [hdiskWrite]
    exact Nat.zero_le _
  · rw [hr]
    exact Nat.two_pow_pos 64
  · rw [hw]
    exact Nat.two_pow_pos 64

/-- **The counters are conserved in every state of every interleaving.** -/
theorem counters_conserved {env : LoadEnv} {doc : Document} {s₀ s : State} (hidle : Idle s₀)
    (hload : loadObjects env doc s₀ = .ok s) {secs : List Section}
    (hsecs : Along Section.run (fun s sec => SectionValid s sec ∧ SectionFits s sec) s secs) :
    Always Section.run Conserved s secs :=
  always_of_invariant (fun _ _ h hok => h.step hok.1 hok.2) (fun _ h => h.conserved)
    (loadObjects_ok hidle hload).1.balance hsecs

/-- A service counts, an access counts, the disks are cleared, a file changes disks, everything is reset. -/
theorem counters_conserved_small :
    Always Section.run Conserved smallPrepared
      [.linkIn 0 0, .linkIn 1 0, .start (smallEnv [] small_fits none), .service 0 smallService,
        .service 0 smallService, .service 0 smallService, .access 1 1 0, .restart,
        .moveOut 1 1 smallMove, .linkIn 1 1, .moved 1 1 (some 0), .reset] := by
  refine counters_conserved (idle_init _ _ _ _) small_prepares
    ⟨⟨⟨?_, ?_, ?_⟩, trivial⟩, ⟨⟨?_, ?_, ?_⟩, trivial⟩, ⟨trivial, trivial⟩, ⟨trivial, fun _ _ => ?_⟩,
      ⟨trivial, fun _ _ => ?_⟩, ⟨trivial, fun _ _ => ?_⟩, ⟨show 1 ∈ _ from ?_, ?_, ?_⟩,
      ⟨trivial, trivial⟩, ⟨show 1 ∈ _ from ?_, trivial⟩, ⟨⟨?_, ?_, ?_⟩, trivial⟩, ⟨trivial, trivial⟩,
      ⟨trivial, trivial⟩, trivial⟩ <;> decide +kernel

/-! ## Calls as sections -/

/-- The state is reached by sections on the configuration. -/
def BySections (s s' : State) : Prop :=
  ∃ secs, s' = exec Section.run s secs ∧ Along Section.run SectionValid s secs

theorem BySections.refl (s : State) : BySections s s := ⟨[], rfl, trivial⟩

theorem BySections.one (sec : Section) (hok : SectionValid s sec) : BySections s (sec.run s) :=
  ⟨[sec], rfl, hok, trivial⟩

theorem BySections.trans {s₁ s₂ s₃ : State} (h₁ : BySections s₁ s₂) (h₂ : BySections s₂ s₃) :
    BySections s₁ s₃ := by
  obtain ⟨secs₁, rfl, hok₁⟩ := h₁
  obtain ⟨secs₂, rfl, hok₂⟩ := h₂
  exact ⟨secs₁ ++ secs₂, (exec_append _ _ _).symm, (along_append _ _ _).mpr ⟨hok₁, hok₂⟩⟩

/-- A move: out, in, and the section under the lock; or a copy that fails. -/
theorem assign_bySections (hf : f ∈ s.fileHead) (hd : d ∈ s.diskHead) (io : MoveIo) :
    BySections s (workloadAssignFileToDisk s (some f) (some d) io).2 := by
  unfold workloadAssignFileToDisk
  dsimp only
  have hout : BySections s (workloadMoveAssignFile s f d io).2 :=
    .one (.moveOut f d io) hf
  split_ifs with hsame hresult
  · exact .refl s
  · refine hout.trans (.trans (.one (.linkIn f d) ⟨?_, ?_, ?_⟩) (.one (.moved f d _) trivial))
    · have hfiles : (workloadMoveAssignFile s f d io).2.fileHead = s.fileHead :=
        congrArg Roster.fileHead workloadMoveAssignFile_views.1
      exact hfiles ▸ hf
    · have hdisks : (workloadMoveAssignFile s f d io).2.diskHead = s.diskHead :=
        congrArg Roster.diskHead workloadMoveAssignFile_views.1
      exact hdisks ▸ hd
    · obtain ⟨hfail, -⟩ | ⟨-, hplace⟩ := move_placement s f d io
      · rw [hfail] at hresult
        exact absurd hresult (by decide)
      · show (workloadMoveAssignFile s f d io).2.placement.home f = none
        rw [hplace]
        unfold Placement.leave
        cases hhome : s.placement.home f with
        | none => exact hhome
        | some old => exact Function.update_self f _ _
  · exact hout

/-- A relocation moves one file after the other. -/
theorem relocate_bySections {files : List FilePtr} (ios : FilePtr → MoveIo) (h : Placed s)
    (hfiles : files ⊆ s.fileHead) :
    BySections s (files.foldl (fun s f => relocateFile s f (ios f)) s) := by
  induction files generalizing s with
  | nil => exact .refl s
  | cons f files ih =>
      obtain ⟨hf, hfiles⟩ := List.cons_subset.mp hfiles
      have hhead : (relocateFile s f (ios f)).fileHead = s.fileHead :=
        congrArg Roster.fileHead relocateFile_views.1
      have hround : BySections s (relocateFile s f (ios f)) := by
        unfold relocateFile
        cases hplan : (s.files f).reassignDisk with
        | none => exact .refl s
        | some d =>
            have hmove := assign_bySections hf (h.plan f hf d hplan) (ios f)
            exact hmove.trans (.one (.unplan f) trivial)
      exact hround.trans (ih (h.relocateFile (ios f) hf).1 (by rw [hhead]; exact hfiles))

/-- **Every call is a sequence of sections**, so a run of calls is one of the interleavings. -/
theorem Placed.bySections {op : Op} (h : Placed s) (hop : Configured s op) :
    BySections s (op.run s) := by
  cases op with
  | load env => exact absurd hop id
  | unload io => exact absurd hop id
  | command code ios => exact absurd hop id
  | index env => exact .one (.index env) trivial
  | start env => exact .one (.start env) trivial
  | service d io => exact .one (.service d io) trivial
  | assign file disk io =>
      cases file with
      | none => exact .refl s
      | some f =>
          cases disk with
          | none => exact .refl s
          | some d => exact assign_bySections (hop.1 f rfl) (hop.2 d rfl) io
  | access file io =>
      cases file with
      | none => exact .refl s
      | some f =>
          show BySections s (workloadFileAccess s (some f) io).2
          obtain ⟨-, hres | ⟨d, -, hres⟩⟩ | ⟨-, d, r, w, -, -, -, hres⟩ := workloadFileAccess_cases s f io
          · rw [hres]
            exact .refl s
          · rw [hres]
            exact .one (.transfer f d io) trivial
          · rw [hres]
            have hviews := @accessTransfer_views s f d io
            have hfiles : (accessTransfer s f d io).2.fileHead = s.fileHead :=
              congrArg Roster.fileHead hviews.1
            have hvalid : SectionValid (accessTransfer s f d io).2 (.access f r w) :=
              show f ∈ (accessTransfer s f d io).2.fileHead from hfiles ▸ hop f rfl
            exact .trans (.one (.transfer f d io) trivial) (.one (.access f r w) hvalid)
  | reset => exact .one (.reset) trivial
  | setRelocate value =>
      exact .trans (.one (.setRelocate value) trivial) (.one (.restart) trivial)
  | toggleRelocate =>
      exact .trans (.one (.setRelocate !s.relocate) trivial) (.one (.restart) trivial)
  | relocate ios => exact relocate_bySections ios h (List.Subset.refl _)
  | tick timeStamp => exact .one (.tick timeStamp) trivial
  | screen height => exact .one (.screen height) trivial

/-- Sections keep the chains, lists and services in place. -/
theorem Anchored.bySections (h : Anchored s) (hrun : BySections s s') : Anchored s' := by
  obtain ⟨secs, rfl, hok⟩ := hrun
  exact exec_invariant (fun _ _ h hok => h.step hok) h hok

end Workload
