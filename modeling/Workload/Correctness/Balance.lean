import Workload.Correctness.Divisors
import Workload.Correctness.Lists

/-!
# `Correctness.Balance` — the ordered and the even method share the files out evenly

Both methods give the file of round `k` to the disk with the index `k * diskCount / filecount`; they differ in
the order in which the rounds take the files. `Dealt` follows this order. The even method draws it, but a
disk's share depends on the number of rounds only.

* **`assignment_balanced`** — every file is on one disk and every disk has its share, whatever is drawn;
  under the ordered method the shares are ranges of file ids.
-/

namespace Workload

open Intrusive

/-! ## All files allocated -/

theorem fileLoop_full {env : LoadEnv} {n id : Nat} {s s' : State}
    (hnew : ∀ id, env.newFile id = true) (h : fileLoop env n id s = .ok s') :
    s'.fileHead.length = s.fileHead.length + n ∧ s'.cfg = s.cfg := by
  induction n generalizing id s with
  | zero =>
      obtain rfl := Except.ok.inj h
      exact ⟨rfl, rfl⟩
  | succ n ih =>
      unfold fileLoop at h
      split_ifs at h
      unfold workloadNewFile at h
      rw [hnew id] at h
      obtain ⟨hlen, hcfg⟩ := ih h
      refine ⟨?_, hcfg⟩
      rw [hlen]
      show (s.fileHead ++ [s.nextFile]).length + n = _
      rw [List.length_append, List.length_singleton]
      omega

theorem workloadUpdateFileArray_frame (s : State) (ok : Bool) :
    (workloadUpdateFileArray s ok).2.fileHead = s.fileHead ∧
      (workloadUpdateFileArray s ok).2.cfg = s.cfg := by
  have hfree : (workloadFreeFileArray s).fileHead = s.fileHead ∧
      (workloadFreeFileArray s).cfg = s.cfg := by
    unfold workloadFreeFileArray
    split_ifs <;> exact ⟨rfl, rfl⟩
  unfold workloadUpdateFileArray
  split_ifs
  · exact hfree
  · exact hfree
  · obtain ⟨files, hset, -, -, -⟩ := setIndexes_eq s.fileHead 0 { s with
      fileOrdered := s.fileHead, fileSorted := s.fileHead, fileEven := s.fileHead
      fileCount := s.fileHead.length }
    rw [hset]
    exact ⟨rfl, rfl⟩

/-- When every allocation succeeds there are as many files as configured. -/
theorem loadObjects_full {env : LoadEnv} {doc : Document} {s₀ s : State}
    (hnew : ∀ id, env.newFile id = true) (h : loadObjects env doc s₀ = .ok s) :
    s.fileHead.length = s.cfg.filecount := by
  unfold loadObjects at h
  obtain ⟨s₁, -, h⟩ := load_bind_ok.mp h
  obtain ⟨s₂, -, h⟩ := load_bind_ok.mp h
  obtain ⟨s₃, -, h⟩ := load_bind_ok.mp h
  obtain ⟨s₄, -, h⟩ := load_bind_ok.mp h
  unfold loadFiles at h
  obtain ⟨s₅, hloop, h⟩ := load_bind_ok.mp h
  obtain ⟨hlen, hcfg⟩ := fileLoop_full hnew hloop
  obtain ⟨hhead, hkeep⟩ := workloadUpdateFileArray_frame s₅ env.fileArray
  dsimp only at h
  split_ifs at h
  obtain rfl := Except.ok.inj h
  rw [hhead, hkeep, hlen, hcfg]
  exact Nat.zero_add _

/-! ## The order of the rounds -/

/-- **Invariant of the loop under the ordered and the even method.** `order` are the files dealt out so far;
    place `k` of it decides the disk. -/
structure Dealt (s₀ s : State) (order : List FilePtr) : Prop where
  dealing : Dealing s₀ s order.length
  nodup : order.Nodup
  subset : order ⊆ s₀.fileHead
  mem : ∀ f ∈ s₀.fileHead, f ∈ order ↔ (s.placement.home f).isSome
  home : ∀ k f, order[k]? = some f →
    s.placement.home f = s₀.diskHead[k * s₀.diskCount / s₀.cfg.filecount]?
  ordered : s₀.cfg.filesAssignMethod = 1 → order = s₀.fileHead.take order.length

theorem Prepared.dealt {s : State} (hs : Prepared s) : Dealt s s [] := by
  refine ⟨hs.dealing, List.nodup_nil, List.nil_subset _, ?_, nofun, fun _ => rfl⟩
  intro f hf
  obtain ⟨i, hfresh⟩ := hs.file hf
  have hnone : s.placement.home f = none := hfresh.assignDisk
  simp [hnone]

/-- **One round under the ordered and the even method**: it puts one more file on the disk of its place. -/
theorem Dealt.round {s₀ s : State} {order : List FilePtr} (env : LoadEnv) (hs₀ : Prepared s₀)
    (h : Dealt s₀ s order) (hk : order.length < s₀.fileCount) (hdisk : 0 < s₀.diskCount)
    (hmethod : s₀.cfg.filesAssignMethod = 1 ∨ s₀.cfg.filesAssignMethod = 2) (n : Nat) :
    ∃ f s₁, Dealt s₀ s₁ (order ++ [f]) ∧
      assignLoop env (n + 1) (order.length + 1) s =
        (if env.brkAssign (order.length + 1) then .error (.returned (-1) s)
        else assignLoop env n (order.length + 2) s₁) ∧
      assignRounds env (n + 1) (order.length + 1) s =
        if env.brkAssign (order.length + 1) then []
        else (order.length + 1, s) :: assignRounds env n (order.length + 2) s₁ := by
  have hroster := h.dealing.roster
  have hb : s.roster.Built := hroster ▸ hs₀.built
  have hcount : s.fileCount = s₀.fileCount := congrArg Roster.fileCount hroster
  have hhead : s.fileHead = s₀.fileHead := congrArg Roster.fileHead hroster
  have hcfg : s.cfg = s₀.cfg := congrArg Roster.cfg hroster
  have hdisks : s.disk = s₀.diskHead := (congrArg Roster.disk hroster).trans hs₀.disk
  have hcreated : ∀ f ∈ s.fileHead, (s.files f).created = false := by
    intro f hf
    obtain ⟨i, hfresh⟩ := hs₀.file (hhead ▸ hf)
    exact (congrFun (congrArg Contents.created h.dealing.contents) f).trans hfresh.created
  obtain ⟨f, even, hassign, heven, hf, hnew, hdealt⟩ :=
    assignFile_ok (k := order.length) (env.rand (order.length + 1)) hb h.dealing.even (hcount ▸ hk)
  obtain ⟨hid, hbelow⟩ := h.dealing.share hs₀ hk hdisk hmethod hassign
  rw [hs₀.diskCount] at hbelow
  obtain ⟨d, hd⟩ : ∃ d, s₀.diskHead[order.length * s₀.diskCount / s₀.cfg.filecount]? = some d :=
    ⟨_, List.getElem?_eq_getElem (hs₀.diskCount.symm ▸ hbelow)⟩
  have hget : s.disk[order.length * s₀.diskCount / s₀.cfg.filecount]? = some d := hdisks ▸ hd
  have harray : s.disk = s.diskHead := hb.disk
  have hdmem : d ∈ s.diskHead := harray ▸ List.mem_of_getElem? hget
  obtain ⟨s₁, hs₁, hdealing⟩ :=
    h.dealing.round (env.assignIo f) hb hcreated heven hf hnew hdealt hdmem
  -- the file of the round had no disk, and has this one now
  have hfree : ¬ (s.placement.home f).isSome := mt (h.dealing.home f hf).mp hnew
  have hforder : f ∉ order := mt (h.mem f (hhead ▸ hf)).mp hfree
  have hhome : s₁.placement.home = Function.update s.placement.home f (some d) := by
    obtain ⟨hfail, -⟩ | ⟨-, hplace⟩ :=
      assign_placement { s with fileEven := even } f d (env.assignIo f)
    · rw [hs₁] at hfail
      exact absurd hfail (by rintro ⟨⟩)
    · rw [hs₁] at hplace
      rw [hplace, Placement.move_home]
      rfl
  have hlen : (order ++ [f]).length = order.length + 1 := List.length_append
  refine ⟨f, s₁, ⟨?_, ?_, ?_, ?_, ?_, ?_⟩, ?_, ?_⟩
  · exact hlen ▸ hdealing
  · rw [List.nodup_append_comm, List.singleton_append]
    exact List.nodup_cons.mpr ⟨hforder, h.nodup⟩
  · intro g hg
    rcases List.mem_append.mp hg with hg | hg
    · exact h.subset hg
    · rw [List.mem_singleton.mp hg]
      exact hhead ▸ hf
  · intro g hg
    rw [hhome, List.mem_append, List.mem_singleton, Function.update_apply]
    split_ifs with hgf
    · simp [hgf]
    · simp [hgf, h.mem g hg]
  · intro k g hg
    rw [hhome]
    rcases getElem?_concat_cases hg with hg | ⟨rfl, rfl⟩
    · have hne : g ≠ f := fun he => hforder (he ▸ List.mem_of_getElem? hg)
      rw [Function.update_of_ne hne]
      exact h.home k g hg
    · rw [Function.update_self]
      exact hd.symm
  · intro hordered
    have hget := assignFile_ordered hb (hcount ▸ hk) (hcfg ▸ hordered) hassign
    rw [hlen, List.take_add_one, ← hhead, hget, hhead, ← h.ordered hordered]
    rfl
  · rw [assignLoop, hassign]
    dsimp only
    rw [hid]
    dsimp only
    rw [hget]
    dsimp only
    rw [hs₁]
    rfl
  · rw [assignRounds, hassign]
    dsimp only
    rw [hid]
    dsimp only
    rw [hget]
    dsimp only
    rw [hs₁]
    rfl

/-- **The loop under the ordered and the even method.** It ends with all files dealt out unless it is broken
    off, and every round finds `m_file_even` a permutation of the files. -/
theorem Dealt.loop {env : LoadEnv} {s₀ s : State} {order : List FilePtr} {n : Nat}
    (hs₀ : Prepared s₀) (h : Dealt s₀ s order) (hn : order.length + n = s₀.fileCount)
    (hdisk : 0 < s₀.diskCount)
    (hmethod : s₀.cfg.filesAssignMethod = 1 ∨ s₀.cfg.filesAssignMethod = 2) :
    (∀ r ∈ assignRounds env n (order.length + 1) s, r.2.fileEven.Perm s₀.fileHead) ∧
      (∀ s', assignLoop env n (order.length + 1) s = .ok s' →
        ∃ order, order.length = s₀.fileCount ∧ Dealt s₀ s' order) ∧
      ((∀ id, env.brkAssign id = false) →
        ∃ s', assignLoop env n (order.length + 1) s = .ok s') := by
  induction n generalizing s order with
  | zero =>
      refine ⟨(fun r hr => nomatch hr), fun s' hs' => ?_, fun _ => ⟨s, rfl⟩⟩
      obtain rfl := Except.ok.inj hs'
      exact ⟨order, hn, h⟩
  | succ n ih =>
      have hhead : s.fileHead = s₀.fileHead := congrArg Roster.fileHead h.dealing.roster
      obtain ⟨f, s₁, h₁, hloop, hrounds⟩ := h.round env hs₀ (by omega) hdisk hmethod n
      have hlen : (order ++ [f]).length = order.length + 1 := List.length_append
      obtain ⟨hperm, hdone, hgoes⟩ := ih h₁ (by omega)
      rw [hlen] at hperm hdone hgoes
      rw [hloop, hrounds]
      refine ⟨fun r hr => ?_, fun s' hs' => ?_, fun hbrk => ?_⟩
      · split_ifs at hr
        · exact nomatch hr
        · rcases List.mem_cons.mp hr with rfl | hr
          · exact hhead ▸ h.dealing.even
          · exact hperm r hr
      · split_ifs at hs'
        exact hdone s' hs'
      · rw [hbrk, if_neg Bool.false_ne_true]
        exact hgoes hbrk

/-! ## Shares -/

/-- When all rounds are through, the order lists all files. -/
theorem Dealt.perm {s₀ s : State} {order : List FilePtr} (hs₀ : Prepared s₀) (h : Dealt s₀ s order)
    (hlen : order.length = s₀.fileCount) : order.Perm s₀.fileHead := by
  have hsub := List.Nodup.subperm h.nodup h.subset
  exact hsub.perm_of_length_le (hlen.trans hs₀.fileCount).ge

/-- **The share of a disk** is the share of its place, whatever the order was. -/
theorem Dealt.count {s₀ s : State} {order : List FilePtr} (hs₀ : Prepared s₀) (h : Dealt s₀ s order)
    (hlen : order.length = s₀.fileCount) (hfull : s₀.fileHead.length = s₀.cfg.filecount) {i : Nat}
    {d : DiskPtr} (hd : s₀.diskHead[i]? = some d) :
    (s.disks d).assignFileCount = Sums.shareSize s₀.fileHead.length s₀.diskHead.length i := by
  have hhead : s.fileHead = s₀.fileHead := congrArg Roster.fileHead h.dealing.roster
  have hdisks : s.diskHead = s₀.diskHead := congrArg Roster.diskHead h.dealing.roster
  obtain ⟨seats, hseats⟩ := h.dealing.seated
  rw [hhead, hdisks] at hseats
  calc (s.disks d).assignFileCount = s₀.fileHead.countP fun f => s.placement.home f == some d :=
        hseats.count_eq hs₀.fileHead_nodup (List.mem_of_getElem? hd)
    _ = order.countP fun f => s.placement.home f == some d := ((h.perm hs₀ hlen).countP_eq _).symm
    _ = (List.range order.length).countP fun k => k * s₀.diskCount / s₀.cfg.filecount == i := by
        refine Sums.countP_places fun k f hf => ?_
        rw [h.home k f hf, ← hd, Bool.eq_iff_iff, beq_iff_eq, beq_iff_eq]
        have hi : i < s₀.diskHead.length := (List.getElem?_eq_some_iff.mp hd).1
        exact ⟨fun he => ((List.getElem?_inj hi hs₀.diskHead_nodup).mp he.symm).symm, fun he => by rw [he]⟩
    _ = Sums.shareSize s₀.fileHead.length s₀.diskHead.length i := by
        rw [hlen, hs₀.fileCount, hs₀.diskCount, hfull]
        rfl

/-- Every file is on one disk, and every disk has as many files as any other, up to one. -/
structure Balanced (s : State) : Prop where
  lists : ∃ lists, DiskLists s lists ∧ ∀ f ∈ s.fileHead, ∃! d, d ∈ s.diskHead ∧ f ∈ lists d
  share : ∀ d ∈ s.diskHead,
    (s.disks d).assignFileCount = s.fileHead.length / s.diskHead.length ∨
      (s.disks d).assignFileCount = (s.fileHead.length + s.diskHead.length - 1) / s.diskHead.length

/-- The ids of the files of a disk are a range, and later disks have later ranges. -/
structure Ranges (s : State) : Prop where
  monotone : ∀ f ∈ s.fileHead, ∀ g ∈ s.fileHead, ∀ d e, (s.files f).assignDisk = some d →
    (s.files g).assignDisk = some e → (s.files f).id ≤ (s.files g).id → (s.disks d).id ≤ (s.disks e).id
  contiguous : ∀ f ∈ s.fileHead, ∀ g ∈ s.fileHead, ∀ h ∈ s.fileHead, ∀ d,
    (s.files f).assignDisk = some d → (s.files h).assignDisk = some d →
    (s.files f).id ≤ (s.files g).id → (s.files g).id ≤ (s.files h).id → (s.files g).assignDisk = some d

theorem Dealt.balanced {s₀ s : State} {order : List FilePtr} (hs₀ : Prepared s₀) (h : Dealt s₀ s order)
    (hlen : order.length = s₀.fileCount) (hfull : s₀.fileHead.length = s₀.cfg.filecount) :
    Balanced s := by
  have hhead : s.fileHead = s₀.fileHead := congrArg Roster.fileHead h.dealing.roster
  have hdisks : s.diskHead = s₀.diskHead := congrArg Roster.diskHead h.dealing.roster
  have hplaced : Placed s := by
    refine ⟨h.dealing.roster ▸ hs₀.built, h.dealing.seated, ?_⟩
    rw [h.dealing.plan, hhead, hdisks]
    exact hs₀.placed.plan
  constructor
  · obtain ⟨lists, hlists⟩ := hplaced.diskLists
    refine ⟨lists, hlists, fun f hf => ?_⟩
    have hsome : (s.placement.home f).isSome :=
      (h.mem f (hhead ▸ hf)).mp ((h.perm hs₀ hlen).symm.subset (hhead ▸ hf))
    obtain ⟨d, hd⟩ := Option.isSome_iff_exists.mp hsome
    obtain ⟨hmem, hcount, honly⟩ := hlists.assigned f hf d hd
    refine ⟨d, ⟨hmem, List.count_pos_iff.mp (hcount ▸ Nat.one_pos)⟩, ?_⟩
    rintro e ⟨he, hfe⟩
    exact honly e he hfe
  · intro d hd
    rw [hdisks] at hd
    obtain ⟨i, hi⟩ := List.getElem?_of_mem hd
    rw [h.count hs₀ hlen hfull hi, hhead, hdisks]
    exact Sums.shareSize_eq (hfull ▸ hs₀.filecount_pos) (List.getElem?_eq_some_iff.mp hi).1

/-- Under the ordered method the place of a file in the chain decides its disk. -/
theorem Dealt.ranges {s₀ s : State} {order : List FilePtr} (hs₀ : Prepared s₀) (h : Dealt s₀ s order)
    (hlen : order.length = s₀.fileCount) (hordered : s₀.cfg.filesAssignMethod = 1) : Ranges s := by
  have hhead : s.fileHead = s₀.fileHead := congrArg Roster.fileHead h.dealing.roster
  have hdisks : s.diskHead = s₀.diskHead := congrArg Roster.diskHead h.dealing.roster
  have hb : s.roster.Built := h.dealing.roster ▸ hs₀.built
  have hall : order = s₀.fileHead := by
    rw [h.ordered hordered, hlen, hs₀.fileCount, List.take_length]
  -- a file with the id `k + 1` is on the disk of place `k`
  have hplace : ∀ f ∈ s.fileHead, ∃ k, (s.files f).id = k + 1 ∧
      (s.files f).assignDisk = s.diskHead[k * s₀.diskCount / s₀.cfg.filecount]? := by
    intro f hf
    obtain ⟨k, hk⟩ := List.getElem?_of_mem hf
    refine ⟨k, hb.fileId k f hk, ?_⟩
    rw [hdisks]
    exact h.home k f (by rwa [hall, ← hhead])
  have hmono : ∀ {k l : Nat}, k + 1 ≤ l + 1 →
      k * s₀.diskCount / s₀.cfg.filecount ≤ l * s₀.diskCount / s₀.cfg.filecount :=
    fun hkl => Nat.div_le_div_right (Nat.mul_le_mul_right _ (Nat.le_of_succ_le_succ hkl))
  constructor
  · intro f hf g hg d e hd he hle
    obtain ⟨k, hfid, hfd⟩ := hplace f hf
    obtain ⟨l, hgid, hge⟩ := hplace g hg
    rw [hfid, hgid] at hle
    have hdid : (s.disks d).id = _ + 1 := hb.diskId _ d (hfd.symm.trans hd)
    have heid : (s.disks e).id = _ + 1 := hb.diskId _ e (hge.symm.trans he)
    rw [hdid, heid]
    exact Nat.succ_le_succ (hmono hle)
  · intro f hf g hg i hi d hd hdi hfg hgi
    obtain ⟨k, hfid, hfd⟩ := hplace f hf
    obtain ⟨l, hgid, hgd⟩ := hplace g hg
    obtain ⟨m, hiid, hid⟩ := hplace i hi
    rw [hfid, hgid] at hfg
    rw [hgid, hiid] at hgi
    have hlow := hmono hfg
    have hhigh := hmono hgi
    have hkd := hfd.symm.trans hd
    have hmd := hid.symm.trans hdi
    have hkm := (List.getElem?_inj (List.getElem?_eq_some_iff.mp hkd).1 hb.diskHead_nodup).mp
      (hkd.trans hmd.symm)
    rw [hgd, ← hkd, le_antisymm (hkm ▸ hhigh) hlow]

/-- **Balanced assignment.** With all files allocated and at least one disk, the ordered and the even method
    put every file on one disk and give every disk its even share, the same one for all draws. The ordered
    method deals out ranges of ids; every round finds `m_file_even` a permutation of the files. -/
theorem assignment_balanced {env : LoadEnv} {doc : Document} {s₀ s : State} (hidle : Idle s₀)
    (hload : loadObjects env doc s₀ = .ok s) (hfile : ∀ id, env.newFile id = true)
    (hdisk : s.diskHead ≠ [])
    (hmethod : s.cfg.filesAssignMethod = 1 ∨ s.cfg.filesAssignMethod = 2) :
    s.fileHead.length = s.cfg.filecount ∧
      ∀ env' : LoadEnv,
        (∀ r ∈ assignRounds env' s.fileCount 1 s, r.2.fileEven.Perm s.fileHead) ∧
        ((∀ id, env'.brkAssign id = false) → ∃ s', assignLoop env' s.fileCount 1 s = .ok s') ∧
        ∀ s', assignLoop env' s.fileCount 1 s = .ok s' →
          s'.fileHead = s.fileHead ∧ s'.diskHead = s.diskHead ∧ s'.fileEven.Perm s.fileHead ∧
          Balanced s' ∧ (s.cfg.filesAssignMethod = 1 → Ranges s') ∧
          ∀ i d, s.diskHead[i]? = some d → (s'.disks d).assignFileCount =
            Sums.shareSize s.fileHead.length s.diskHead.length i := by
  have hs : Prepared s := (loadObjects_ok hidle hload).1
  have hfull := loadObjects_full hfile hload
  have hpos : 0 < s.diskCount := hs.diskCount ▸ List.length_pos_iff.mpr hdisk
  refine ⟨hfull, fun env' => ?_⟩
  obtain ⟨hperm, hdone, hgoes⟩ := @Dealt.loop env' s s [] _ hs hs.dealt (Nat.zero_add _) hpos hmethod
  refine ⟨hperm, hgoes, fun s' hs' => ?_⟩
  obtain ⟨order, hlen, h⟩ := hdone s' hs'
  have hhead : s'.fileHead = s.fileHead := congrArg Roster.fileHead h.dealing.roster
  refine ⟨hhead, congrArg Roster.diskHead h.dealing.roster, hhead ▸ h.dealing.even,
    h.balanced hs hlen hfull, h.ranges hs hlen, fun i d hd => ?_⟩
  exact h.count hs hlen hfull hd

/-- Two files shared out among two disks by the even method. -/
@[irreducible] def smallEven : State :=
  (loadObjects (smallEnv [] small_fits none) ⟨smallDocument [], small_fits⟩
    (workloadInit 0 id (fun _ _ => none) [("assign-method".toList, "even".toList)])).state

theorem small_evens :
    loadObjects (smallEnv [] small_fits none) ⟨smallDocument [], small_fits⟩
      (workloadInit 0 id (fun _ _ => none) [("assign-method".toList, "even".toList)]) = .ok smallEven := by
  unfold smallEven
  exact load_eq_of_isOk (by decide +kernel)

theorem assignment_balanced_small :
    smallEven.fileHead.length = smallEven.cfg.filecount ∧
      ∀ env' : LoadEnv,
        (∀ r ∈ assignRounds env' smallEven.fileCount 1 smallEven,
          r.2.fileEven.Perm smallEven.fileHead) ∧
        ((∀ id, env'.brkAssign id = false) →
          ∃ s', assignLoop env' smallEven.fileCount 1 smallEven = .ok s') ∧
        ∀ s', assignLoop env' smallEven.fileCount 1 smallEven = .ok s' →
          s'.fileHead = smallEven.fileHead ∧ s'.diskHead = smallEven.diskHead ∧
          s'.fileEven.Perm smallEven.fileHead ∧ Balanced s' ∧
          (smallEven.cfg.filesAssignMethod = 1 → Ranges s') ∧
          ∀ i d, smallEven.diskHead[i]? = some d → (s'.disks d).assignFileCount =
            Sums.shareSize smallEven.fileHead.length smallEven.diskHead.length i :=
  assignment_balanced (idle_init _ _ _ _) small_evens (fun _ => rfl) (by decide +kernel)
    (by decide +kernel)

end Workload
