import Workload.Lib.Trace
import Workload.Correctness.Services

/-!
# `Correctness.Ranks` — the sorted array is a ranking by access count

`workload_file_access` never sorts: the loop `sortIndex` moves the one file whose count went up. On the view
`board` the loop is `Ranking.bubble`, whatever the pointers are (`sortIndex_board`), so a counted access is
`Ranking.Ranked.raise`; the start-up counting and the reset leave equal counts behind, and equal counts are in
order as they stand.

**Main result.** `load_ranked`: after a load, every run of accesses, resets and relocations stays ranked.
-/

namespace Workload

open Ranking Trace

/-! ## The loop -/

/-- The access count of each file, as `unsigned long long`. -/
def Counters.score (c : Counters) (f : FilePtr) : Nat := add64 (c.fileRead f) (c.fileWrite f)

theorem board_setIndex (s : State) (f : FilePtr) (i : Nat) :
    (s.modifyFile f fun file => { file with index := i }).board =
      ⟨s.board.order, Function.update s.board.rank f i⟩ := by
  refine Board.ext rfl ?_
  funext x
  simp only [State.board, State.modifyFile_files, Function.update_apply]
  split_ifs <;> rfl

theorem board_setSorted (s : State) (i : Nat) (f : FilePtr) :
    (s.setSorted i f).board = ⟨s.board.order.set i f, s.board.rank⟩ := rfl

/-- **The loop is `bubble`.** -/
theorem sortIndex_board (f : FilePtr) (count i : Nat) (s : State) :
    (sortIndex f count i s).board = bubble s.counters.score count f i s.board := by
  induction i generalizing s with
  | zero => rfl
  | succ i ih =>
      have hscore : accessCount s (s.fileSorted.getD i 0) =
          s.counters.score (s.board.order.getD i default) := rfl
      unfold sortIndex bubble
      dsimp only
      rw [hscore]
      split_ifs
      · rfl
      · rw [ih, board_setIndex, board_setSorted, board_setIndex, board_setSorted]
        simp
        rfl

/-- The section of an access, on the board. -/
theorem accessSection_board (s : State) (f : FilePtr) (r w : Nat) :
    (accessSection s f r w).board =
      bubble (countAccess s f r w).counters.score ((countAccess s f r w).counters.score f) f
        (s.board.rank f) s.board := by
  have hboard : (countAccess s f r w).board = s.board := countAccess_views.2.2.1
  have hindex : ((countAccess s f r w).files f).index = s.board.rank f := by
    show (countAccess s f r w).board.rank f = _
    rw [hboard]
  unfold accessSection
  dsimp only
  rw [updateDb_views.2.2.2.1, planReassign_views.2.2.2.1, sortIndex_board, hindex, hboard]
  rfl

/-! ## One step -/

/-- The calls on a loaded workload that access, reset and relocate. -/
def Running (s : State) : Op → Prop
  | .access none _ => True
  | .access (some f) _ => f ∈ s.fileHead
  | .reset => True
  | .setRelocate _ => True
  | .toggleRelocate => True
  | .relocate _ => True
  | .tick _ => True
  | _ => False

/-- No access takes `m_read_count + m_write_count` of its file past `2^64-1`. -/
def NoWrap (s : State) : Op → Prop
  | .access (some f) io =>
      0 < (workloadFileAccess s (some f) io).1 →
        (s.files f).readCount + (s.files f).writeCount < 2 ^ 64 - 1
  | _ => True

/-- `m_file_sorted` lists the files of `m_file_head`, `m_index` is its inverse, and
    `m_read_count + m_write_count` does not increase along it. -/
def RankedByAccess (s : State) : Prop :=
  Ranked (fun f => (s.files f).readCount + (s.files f).writeCount) s.fileHead
    ⟨s.fileSorted, fun f => (s.files f).index⟩

/-- The ranking, and what its proof needs from the past: no sum of a file wraps. -/
structure RankInv (s : State) : Prop where
  built : s.roster.Built
  ranked : RankedByAccess s
  bound : ∀ f ∈ s.fileHead, s.counters.fileRead f + s.counters.fileWrite f < 2 ^ 64

/-- What leaves array and file counters alone keeps the ranking. -/
theorem RankInv.frame {s s' : State} (h : RankInv s) (hroster : s'.roster = s.roster)
    (hboard : s'.board = s.board) (hread : s'.counters.fileRead = s.counters.fileRead)
    (hwrite : s'.counters.fileWrite = s.counters.fileWrite) : RankInv s' := by
  have hfiles : s'.fileHead = s.fileHead := congrArg Roster.fileHead hroster
  have hscore : ∀ f, (s'.files f).readCount + (s'.files f).writeCount =
      (s.files f).readCount + (s.files f).writeCount :=
    fun f => congrArg₂ (· + ·) (congrFun hread f) (congrFun hwrite f)
  refine ⟨hroster ▸ h.built, ?_, ?_⟩
  · have hranked : Ranked (fun f => (s'.files f).readCount + (s'.files f).writeCount) s.fileHead
        s.board := h.ranked.congr fun f _ => hscore f
    rw [← hfiles, ← hboard] at hranked
    exact hranked
  · intro f hf
    rw [hread, hwrite]
    exact h.bound f (hfiles ▸ hf)

/-- **A counted access keeps the ranking.** -/
theorem RankInv.access {s : State} {f : FilePtr} {r w : Nat} (h : RankInv s) (hf : f ∈ s.fileHead)
    (hone : r + w = 1)
    (hlt : s.counters.fileRead f + s.counters.fileWrite f < 2 ^ 64 - 1) :
    RankInv (accessSection s f r w) := by
  have hfiles : (accessSection s f r w).fileHead = s.fileHead :=
    congrArg Roster.fileHead accessSection_views.1
  have hcounters : (accessSection s f r w).counters = (countAccess s f r w).counters :=
    accessSection_views.2.2.1
  have hread : ∀ x, x ≠ f →
      (countAccess s f r w).counters.fileRead x = s.counters.fileRead x := by
    intro x hx
    rw [countAccess_counters]
    exact Function.update_of_ne hx _ _
  have hwrite : ∀ x, x ≠ f →
      (countAccess s f r w).counters.fileWrite x = s.counters.fileWrite x := by
    intro x hx
    rw [countAccess_counters]
    exact Function.update_of_ne hx _ _
  have hread_f : (countAccess s f r w).counters.fileRead f = s.counters.fileRead f + r := by
    rw [countAccess_counters]
    exact (Function.update_self f _ _).trans (add64_of_lt (by omega))
  have hwrite_f : (countAccess s f r w).counters.fileWrite f = s.counters.fileWrite f + w := by
    rw [countAccess_counters]
    exact (Function.update_self f _ _).trans (add64_of_lt (by omega))
  have hbound : ∀ x ∈ s.fileHead, (countAccess s f r w).counters.fileRead x +
      (countAccess s f r w).counters.fileWrite x < 2 ^ 64 := by
    intro x hx
    by_cases hxf : x = f
    · rw [hxf, hread_f, hwrite_f]
      omega
    · rw [hread x hxf, hwrite x hxf]
      exact h.bound x hx
  -- below 2^64 the score the loop compares is the sum
  have hbefore : Ranked s.counters.score s.fileHead s.board :=
    h.ranked.congr fun x hx => add64_of_lt (h.bound x hx)
  have hraise : Ranked (countAccess s f r w).counters.score s.fileHead (accessSection s f r w).board := by
    rw [accessSection_board]
    refine hbefore.raise h.built.fileHead_nodup hf ?_ fun x hx hxf => ?_
    · show add64 _ _ ≤ add64 _ _
      rw [add64_of_lt (h.bound f hf), add64_of_lt (hbound f hf), hread_f, hwrite_f]
      omega
    · show add64 _ _ = add64 _ _
      rw [hread x hxf, hwrite x hxf]
  refine ⟨?_, ?_, ?_⟩
  · rw [accessSection_views.1]
    exact h.built
  · have hafter : Ranked (fun x => (countAccess s f r w).counters.fileRead x +
        (countAccess s f r w).counters.fileWrite x) s.fileHead (accessSection s f r w).board :=
      hraise.congr fun x hx => (add64_of_lt (hbound x hx)).symm
    rw [← hcounters, ← hfiles] at hafter
    exact hafter
  · intro x hx
    rw [hcounters]
    exact hbound x (hfiles ▸ hx)

/-- **The reset keeps the ranking**: all counts are equal then. -/
theorem RankInv.reset {s : State} (h : RankInv s) : RankInv (workloadResetFileAccessCount s) := by
  have hroster := (workloadResetFileAccessCount_views (s := s)).1
  have hboard := (workloadResetFileAccessCount_views (s := s)).2.2.1
  have hfiles : (workloadResetFileAccessCount s).fileHead = s.fileHead :=
    congrArg Roster.fileHead hroster
  have hzero : ∀ f ∈ s.fileHead, (workloadResetFileAccessCount s).counters.fileRead f = 0 ∧
      (workloadResetFileAccessCount s).counters.fileWrite f = 0 := by
    intro f hf
    rw [workloadResetFileAccessCount_counters]
    simp [Counters.reset, hf]
  refine ⟨hroster ▸ h.built, ?_, ?_⟩
  · have hranked : Ranked (fun f => (workloadResetFileAccessCount s).counters.fileRead f +
        (workloadResetFileAccessCount s).counters.fileWrite f) s.fileHead s.board := by
      refine h.ranked.toListed.ranked (k := 0) fun f hf => ?_
      rw [(hzero f hf).1, (hzero f hf).2]
    rw [← hfiles, ← hboard] at hranked
    exact hranked
  · intro f hf
    rw [hfiles] at hf
    rw [(hzero f hf).1, (hzero f hf).2]
    decide

/-- **Step lemma.** -/
theorem RankInv.step {s : State} {op : Op} (h : RankInv s) (hop : Running s op) (hwrap : NoWrap s op) :
    RankInv (op.run s) := by
  cases op with
  | access file io =>
      cases file with
      | none => exact h
      | some f =>
          have hf : f ∈ s.fileHead := hop
          show RankInv (workloadFileAccess s (some f) io).2
          obtain ⟨-, hsame | ⟨d, -, hsame⟩⟩ | ⟨hret, d, r, w, -, hone, -, hsame⟩ :=
            workloadFileAccess_cases s f io
          · rw [hsame]
            exact h
          · rw [hsame]
            exact h.frame (by simp) (by simp) (by simp) (by simp)
          · have hs₁ : RankInv (accessTransfer s f d io).2 :=
              h.frame (by simp) (by simp) (by simp) (by simp)
            have hfiles : (accessTransfer s f d io).2.fileHead = s.fileHead :=
              congrArg Roster.fileHead accessTransfer_views.1
            rw [hsame]
            refine hs₁.access (hfiles ▸ hf) hone ?_
            rw [accessTransfer_views.2.2.1]
            exact hwrap (by rw [hret]; decide)
  | reset => exact h.reset
  | setRelocate value =>
      have hcounters : (workloadSetMainRelocate s value).counters =
          s.counters.restart s.diskHead := relocateSection_counters
      exact h.frame relocateSwitch_views.1 relocateSwitch_views.2.2.1
        (by show (workloadSetMainRelocate s value).counters.fileRead = _; rw [hcounters]; rfl)
        (by show (workloadSetMainRelocate s value).counters.fileWrite = _; rw [hcounters]; rfl)
  | toggleRelocate =>
      have hcounters : (workloadSetMainRelocate s !s.relocate).counters =
          s.counters.restart s.diskHead := relocateSection_counters
      show RankInv (workloadToggleMainRelocate s)
      rw [workloadToggleMainRelocate_eq]
      exact h.frame relocateSwitch_views.1 relocateSwitch_views.2.2.1
        (by rw [hcounters]; rfl) (by rw [hcounters]; rfl)
  | relocate ios =>
      have hviews := @workloadFileRelocate_views s ios
      exact h.frame hviews.1 hviews.2.2.1 (congrArg Counters.fileRead hviews.2.1)
        (congrArg Counters.fileWrite hviews.2.1)
  | tick timeStamp => exact h.frame rfl rfl rfl rfl
  | _ => exact absurd hop id

/-- Behind a load every file was counted once, in the order of the list. -/
theorem Loaded.rankInv {s : State} (hs : Loaded s) : RankInv s := by
  have hone : ∀ f ∈ s.fileHead, (s.files f).readCount + (s.files f).writeCount = 1 := by
    intro f hf
    rw [hs.readCount f hf, hs.writeCount f hf]
  refine ⟨hs.built, Listed.ranked (k := 1) ⟨.of_eq hs.sorted, ?_⟩ hone, ?_⟩
  · intro f hf
    obtain ⟨i, hi⟩ := List.getElem?_of_mem hf
    show s.fileSorted[(s.files f).index]? = some f
    rw [hs.sorted, hs.index i f hi]
    exact hi
  · intro f hf
    have hsum : s.counters.fileRead f + s.counters.fileWrite f = 1 := hone f hf
    rw [hsum]
    decide

/-- **The sorted array is a ranking in every state behind a load.** -/
theorem load_ranked {env : LoadEnv} {s₀ s : State} (hidle : Idle s₀)
    (hload : workloadLoadConfig env s₀ = some (0, s)) {ops : List Op}
    (hops : Along Op.run (fun s op => Running s op ∧ NoWrap s op) s ops) :
    Always Op.run RankedByAccess s ops :=
  always_of_invariant (fun _ _ h hop => h.step hop.1 hop.2) (fun _ h => h.ranked)
    (workloadLoadConfig_ok hidle hload).1.rankInv hops

/-- Two accesses of the second file, a relocation and a reset behind the small load. -/
theorem load_ranked_small :
    Always Op.run RankedByAccess smallLoaded
      [.access (some 1) (smallAccess 0), .access (some 1) (smallAccess 1), .toggleRelocate,
        .relocate fun _ => smallMove, .reset] := by
  refine load_ranked (idle_init _ _ _ _) small_loads
    ⟨⟨?_, ?_⟩, ⟨?_, ?_⟩, ⟨trivial, trivial⟩, ⟨trivial, trivial⟩, ⟨trivial, trivial⟩, trivial⟩
  · show 1 ∈ smallLoaded.fileHead
    decide +kernel
  · show _ → _ < _
    decide +kernel
  · show 1 ∈ (Op.run smallLoaded (.access (some 1) (smallAccess 0))).fileHead
    decide +kernel
  · show _ → _ < _
    decide +kernel

end Workload
