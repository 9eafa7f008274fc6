import Workload.Correctness.Carried
import Workload.Correctness.Conservation

/-!
# `Correctness.Divisors` — the quotients a configuration leads to

Two divisors come out of a configuration. The assignment loop divides by the number of disks, or by the
number of files configured, to pick a disk; the access threads divide by the sum of the two ratios.

* **`rounds_choose_disk`** — every round of the loop picks a loaded disk, unless the loop is entered without
  any disk; `assignLoop_undefined_iff` says that nothing else can leave it undefined.
* **`aspect_ratio_exact`** — a ratio is stored divided by its greatest common divisor.
* **`ratios_stay_ok`** — the ratios and their 32-bit sum stay positive, unless the load reduced one of them to
  more than `2^31`.
-/

namespace Workload

open Trace

/-! ## The disk of a round -/

/-- The rounds of the assignment loop that pass the break test: the number of each, and its state. -/
def assignRounds (env : LoadEnv) : Nat → Nat → State → List (Nat × State)
  | 0, _, _ => []
  | n + 1, id, s =>
      if env.brkAssign id then []
      else
        (id, s) ::
          (let (f, s) := assignFile s id (env.rand id)
          match assignDiskId s f id (env.rand id) with
          | none => []
          | some diskId =>
              match s.disk[diskId]? with
              | none => []
              | some d =>
                  let (result, s) := workloadAssignFileToDisk s (some f) (some d) (env.assignIo f)
                  if result = -1 then [] else assignRounds env n (id + 1) s)

/-- Round `id`, begun in `s`, computes the index of a loaded disk. -/
def ChoosesDisk (env : LoadEnv) (id : Nat) (s : State) : Prop :=
  ∃ diskId, assignDiskId (assignFile s id (env.rand id)).2 (assignFile s id (env.rand id)).1 id
      (env.rand id) = some diskId ∧
    diskId < s.diskCount ∧ ∃ d ∈ s.diskHead, s.disk[diskId]? = some d

/-- With the arrays of a load the disk is in the chain as soon as it is in the array. -/
theorem choosesDisk_iff {env : LoadEnv} {id : Nat} {s : State} (hb : s.roster.Built) :
    ChoosesDisk env id s ↔ ∃ diskId d, assignDiskId (assignFile s id (env.rand id)).2
      (assignFile s id (env.rand id)).1 id (env.rand id) = some diskId ∧ s.disk[diskId]? = some d := by
  have harray : s.disk = s.diskHead := hb.disk
  have hcount : s.diskCount = s.diskHead.length := hb.diskCount
  constructor
  · rintro ⟨diskId, hid, -, d, -, hd⟩
    exact ⟨diskId, d, hid, hd⟩
  · rintro ⟨diskId, d, hid, hd⟩
    have hget : s.diskHead[diskId]? = some d := harray ▸ hd
    obtain ⟨hlt, rfl⟩ := List.getElem?_eq_some_iff.mp hget
    exact ⟨diskId, hid, hcount ▸ hlt, _, List.getElem_mem hlt, hd⟩

/-- **The loop is undefined exactly when one of its rounds picks no disk**, whatever the method. -/
theorem assignLoop_undefined_iff {env : LoadEnv} {n id : Nat} {s : State} (hb : s.roster.Built) :
    (∃ s', assignLoop env n id s = .error (.undefined s')) ↔
      ∃ r ∈ assignRounds env n id s, ¬ ChoosesDisk env r.1 r.2 := by
  induction n generalizing id s with
  | zero => simp [assignLoop, assignRounds]
  | succ n ih =>
      unfold assignLoop assignRounds
      by_cases hbrk : env.brkAssign id = true
      · rw [if_pos hbrk, if_pos hbrk]
        simp
      rw [if_neg hbrk, if_neg hbrk]
      have hchoose := @choosesDisk_iff env id s hb
      have hroster : (assignFile s id (env.rand id)).2.roster = s.roster := by
        unfold assignFile
        split_ifs <;> rfl
      generalize assignFile s id (env.rand id) = drawn at hchoose hroster ⊢
      obtain ⟨f, s₁⟩ := drawn
      dsimp only at hchoose hroster ⊢
      have hdisk : s₁.disk = s.disk := congrArg Roster.disk hroster
      -- what is undefined is undefined in a round that picks nothing
      have hnone : ∀ {l : List (Nat × State)} {t : State}, ¬ ChoosesDisk env id s →
          ((∃ s', (.error (.undefined t) : Load) = .error (.undefined s')) ↔
            ∃ r ∈ (id, s) :: l, ¬ ChoosesDisk env r.1 r.2) :=
        fun hnot => iff_of_true ⟨_, rfl⟩ ⟨_, List.mem_cons_self, hnot⟩
      cases hid : assignDiskId s₁ f id (env.rand id) with
      | none =>
          refine hnone fun hpick => ?_
          obtain ⟨diskId, d, hsome, -⟩ := hchoose.mp hpick
          cases hid.symm.trans hsome
      | some diskId =>
          dsimp only
          cases hd : s₁.disk[diskId]? with
          | none =>
              refine hnone fun hpick => ?_
              obtain ⟨diskId', d, hsome, hget⟩ := hchoose.mp hpick
              obtain rfl := Option.some.inj (hid.symm.trans hsome)
              cases (hdisk ▸ hd).symm.trans hget
          | some d =>
              have hpick : ChoosesDisk env id s := hchoose.mpr ⟨diskId, d, hid, hdisk ▸ hd⟩
              have hmoved : (workloadAssignFileToDisk s₁ (some f) (some d) (env.assignIo f)).2.roster = s.roster :=
                workloadAssignFileToDisk_views.1.trans hroster
              dsimp only
              generalize workloadAssignFileToDisk s₁ (some f) (some d) (env.assignIo f) = moved at hmoved ⊢
              obtain ⟨result, s₂⟩ := moved
              dsimp only at hmoved ⊢
              have hcons : ∀ {l : List (Nat × State)}, (∃ r ∈ (id, s) :: l, ¬ ChoosesDisk env r.1 r.2) ↔
                  ∃ r ∈ l, ¬ ChoosesDisk env r.1 r.2 := by
                intro l
                simp only [List.exists_mem_cons_iff, hpick, not_true_eq_false, false_or]
              split_ifs
              · rw [hcons]
                simp
              · rw [hcons]
                exact ih (hmoved ▸ hb)

/-- A part of a whole picks an index below the number of disks. -/
theorem div64_index {a n count : Nat} (hn : n < count) (hcount : count ≤ defWorkloadConfigMaxFiles)
    (ha : a < 2 ^ 20) (hpos : 0 < a) :
    (div64 (n * a) count).map (· % 2 ^ 32) = some (n * a / count) ∧ n * a / count < a := by
  have hmax : count ≤ 1000000 := hcount
  have hprod : n * a < 2 ^ 64 := by
    have hle : n * a ≤ 1000000 * 2 ^ 20 := Nat.mul_le_mul (by omega) (by omega)
    omega
  have hquot : n * a / count < a := by
    apply Nat.div_lt_of_lt_mul
    exact Nat.mul_lt_mul_of_pos_right hn hpos
  refine ⟨?_, hquot⟩
  have hne : count ≠ 0 := by omega
  simp only [div64, hne, if_false, Option.map_some, Nat.mod_eq_of_lt hprod]
  rw [Nat.mod_eq_of_lt (by omega)]

/-- The ordered method takes the files in order. -/
theorem assignFile_ordered {s : State} {k rand : Nat} {f : FilePtr} {even : List FilePtr}
    (hb : s.roster.Built) (hk : k < s.fileCount) (hmethod : s.cfg.filesAssignMethod = 1)
    (hassign : assignFile s (k + 1) rand = (f, { s with fileEven := even })) :
    s.fileHead[k]? = some f := by
  have hf : f = s.fileOrdered.getD k 0 := by
    have hne : ¬ s.cfg.filesAssignMethod = 2 := by omega
    have hfst := congrArg Prod.fst hassign
    simpa [assignFile, hne] using hfst.symm
  have hord : s.fileOrdered = s.fileHead := hb.fileOrdered
  have hcount : s.fileCount = s.fileHead.length := hb.fileCount
  have hlen : k < s.fileHead.length := hcount ▸ hk
  rw [hf, hord, List.getElem?_eq_getElem hlen]
  simp [List.getD, hlen]

/-- **The share of a round.** The ordered and the even method give file number `k` of `filecount` to the disk
    with the index `k * diskCount / filecount`. -/
theorem Dealing.share {s₀ s : State} {k rand : Nat} {f : FilePtr} {even : List FilePtr}
    (hs₀ : Prepared s₀) (h : Dealing s₀ s k) (hk : k < s₀.fileCount) (hdisk : 0 < s₀.diskCount)
    (hmethod : s₀.cfg.filesAssignMethod = 1 ∨ s₀.cfg.filesAssignMethod = 2)
    (hassign : assignFile s (k + 1) rand = (f, { s with fileEven := even })) :
    assignDiskId { s with fileEven := even } f (k + 1) rand =
        some (k * s₀.diskCount / s₀.cfg.filecount) ∧
      k * s₀.diskCount / s₀.cfg.filecount < s₀.diskCount := by
  have hb : s.roster.Built := h.roster ▸ hs₀.built
  have hcfg : s.cfg = s₀.cfg := congrArg Roster.cfg h.roster
  have hfiles : s.fileCount = s₀.fileCount := congrArg Roster.fileCount h.roster
  have hdisks : s.diskCount = s₀.diskCount := congrArg Roster.diskCount h.roster
  have hlt : s₀.diskCount < 2 ^ 20 := hs₀.diskCount ▸ hs₀.diskHead_lt
  have hkfile : k < s₀.cfg.filecount := (hs₀.fileCount ▸ hk).trans_le hs₀.fileHead_le
  have hindex := div64_index hkfile hs₀.filecount_le hlt hdisk
  refine ⟨?_, hindex.2⟩
  unfold assignDiskId
  dsimp only
  rw [hcfg, hdisks]
  rcases hmethod with hordered | heven
  · -- the file is the one of the round: its id is the number of the round
    have hget := assignFile_ordered hb (hfiles ▸ hk) (hcfg ▸ hordered) hassign
    have hfid : (s.files f).id = k + 1 := hb.fileId k f hget
    have hsub : sub64 (s.files f).id 1 = k := by
      rw [hfid, sub64_of_le (Nat.le_add_left 1 k)]
      · rfl
      · have hmax : s₀.cfg.filecount ≤ 1000000 := hs₀.filecount_le
        omega
    rw [if_pos hordered, hsub]
    exact hindex.1
  · rw [if_neg (by omega), if_pos heven, Nat.add_sub_cancel]
    exact hindex.1

/-- **With a disk there is always one to pick.** The file of the round is in its place of the chain, so the
    three formulas stay below the number of disks. -/
theorem Dealing.choosesDisk {env : LoadEnv} {s₀ s : State} {k : Nat} (hs₀ : Prepared s₀)
    (h : Dealing s₀ s k) (hk : k < s₀.fileCount) (hdisk : 0 < s₀.diskCount) :
    ChoosesDisk env (k + 1) s := by
  have hb : s.roster.Built := h.roster ▸ hs₀.built
  have hcfg : s.cfg = s₀.cfg := congrArg Roster.cfg h.roster
  have hfiles : s.fileCount = s₀.fileCount := congrArg Roster.fileCount h.roster
  have hdisks : s.diskCount = s₀.diskCount := congrArg Roster.diskCount h.roster
  have hcount : s.diskCount = s.diskHead.length := hb.diskCount
  have harray : s.disk = s.diskHead := hb.disk
  have hlt : s.diskCount < 2 ^ 20 := hcount ▸ hb.diskHead_lt
  have hpos : 0 < s.diskCount := hdisks ▸ hdisk
  obtain ⟨f, even, hassign, -, -, -, -⟩ :=
    assignFile_ok (k := k) (env.rand (k + 1)) hb h.even (hfiles ▸ hk)
  suffices hid : ∃ i, assignDiskId { s with fileEven := even } f (k + 1) (env.rand (k + 1)) = some i ∧
      i < s.diskCount by
    obtain ⟨i, hi, hilt⟩ := hid
    have hmem : i < s.diskHead.length := hcount ▸ hilt
    refine ⟨i, ?_, hilt, s.diskHead[i], List.getElem_mem hmem, ?_⟩
    · rw [hassign]
      exact hi
    · rw [harray, List.getElem?_eq_getElem hmem]
  by_cases hmethod : s₀.cfg.filesAssignMethod = 1 ∨ s₀.cfg.filesAssignMethod = 2
  · obtain ⟨hid, hbelow⟩ := h.share hs₀ hk hdisk hmethod hassign
    exact ⟨_, hid, hdisks.symm ▸ hbelow⟩
  · obtain ⟨hordered, heven⟩ := not_or.mp hmethod
    have hmod : s.diskCount % 2 ^ 32 = s.diskCount := Nat.mod_eq_of_lt (by omega)
    unfold assignDiskId
    dsimp only
    rw [hcfg, if_neg hordered, if_neg heven, hmod, if_neg hpos.ne']
    exact ⟨_, rfl, Nat.mod_lt _ hpos⟩

/-- Without a disk there is none to pick. -/
theorem not_choosesDisk {env : LoadEnv} {id : Nat} {s : State} (h : s.diskCount = 0) :
    ¬ ChoosesDisk env id s := by
  rintro ⟨diskId, -, hlt, -⟩
  omega

/-- The rounds of a loop that has disks, from round `k + 1` on. -/
theorem Dealing.rounds {env : LoadEnv} {s₀ s : State} {n k : Nat} (hs₀ : Prepared s₀)
    (h : Dealing s₀ s k) (hn : k + n = s₀.fileCount) (hdisk : 0 < s₀.diskCount) :
    ∀ r ∈ assignRounds env n (k + 1) s, ChoosesDisk env r.1 r.2 := by
  induction n generalizing k s with
  | zero => exact fun r hr => nomatch hr
  | succ n ih =>
      have hk : k < s₀.fileCount := by omega
      have hbs : s.roster.Built := h.roster ▸ hs₀.built
      have hcount : s.fileCount = s₀.fileCount := congrArg Roster.fileCount h.roster
      have hhead : s.fileHead = s₀.fileHead := congrArg Roster.fileHead h.roster
      have hchoose : ChoosesDisk env (k + 1) s := h.choosesDisk hs₀ hk hdisk
      have hcreated : ∀ f ∈ s.fileHead, (s.files f).created = false := by
        intro f hf
        obtain ⟨i, hfresh⟩ := hs₀.file (hhead ▸ hf)
        exact (congrFun (congrArg Contents.created h.contents) f).trans hfresh.created
      obtain ⟨f, even, hassign, heven, hf, hnew, hdealt⟩ :=
        assignFile_ok (k := k) (env.rand (k + 1)) hbs h.even (hcount ▸ hk)
      obtain ⟨diskId, hid, -, d, hd, hget⟩ := id hchoose
      rw [hassign] at hid
      obtain ⟨s₁, hs₁, hdealing⟩ := h.round (env.assignIo f) hbs hcreated heven hf hnew hdealt hd
      unfold assignRounds
      split_ifs
      · exact fun r hr => nomatch hr
      · rw [hassign]
        dsimp only at hid ⊢
        rw [hid]
        dsimp only
        rw [hget]
        dsimp only
        rw [hs₁]
        intro r hr
        rcases List.mem_cons.mp hr with rfl | hr
        · exact hchoose
        · exact ih hdealing (by omega) r hr

/-- **Every round of the assignment loop picks a loaded disk**, exactly unless a round is begun without any
    disk; and a round that picks none is the only way for the loop to be undefined. -/
theorem rounds_choose_disk {env : LoadEnv} {doc : Document} {s₀ s : State} (hidle : Idle s₀)
    (hload : loadObjects env doc s₀ = .ok s) :
    ((∀ r ∈ assignRounds env s.fileCount 1 s, ChoosesDisk env r.1 r.2) ↔
      s.fileCount = 0 ∨ 0 < s.diskCount ∨ env.brkAssign 1 = true) ∧
    ((∃ s', assignLoop env s.fileCount 1 s = .error (.undefined s')) ↔
      ∃ r ∈ assignRounds env s.fileCount 1 s, ¬ ChoosesDisk env r.1 r.2) := by
  have hs : Prepared s := (loadObjects_ok hidle hload).1
  refine ⟨⟨?_, ?_⟩, assignLoop_undefined_iff hs.built⟩
  · intro h
    by_contra hno
    push Not at hno
    obtain ⟨hfile, hdisk, hbrk⟩ := hno
    obtain ⟨n, hn⟩ := Nat.exists_eq_succ_of_ne_zero hfile
    -- the first round is begun
    have hmem : (1, s) ∈ assignRounds env s.fileCount 1 s := by
      rw [hn, assignRounds, if_neg hbrk]
      exact List.mem_cons_self
    exact not_choosesDisk (Nat.eq_zero_of_not_pos (Nat.not_lt.mpr hdisk)) (h _ hmem)
  · rintro (hfile | hdisk | hbrk)
    · rw [hfile]
      exact fun r hr => nomatch hr
    · exact hs.dealing.rounds hs (Nat.zero_add _) hdisk
    · intro r hr
      cases hn : s.fileCount with
      | zero => rw [hn] at hr; exact nomatch hr
      | succ n =>
          rw [hn, assignRounds, if_pos hbrk] at hr
          exact nomatch hr

/-- Two files and two disks. -/
theorem rounds_choose_disk_small :
    ((∀ r ∈ assignRounds (smallEnv [] small_fits none) smallPrepared.fileCount 1 smallPrepared,
      ChoosesDisk (smallEnv [] small_fits none) r.1 r.2) ↔
      smallPrepared.fileCount = 0 ∨ 0 < smallPrepared.diskCount ∨ false = true) ∧
    ((∃ s', assignLoop (smallEnv [] small_fits none) smallPrepared.fileCount 1 smallPrepared =
        .error (.undefined s')) ↔
      ∃ r ∈ assignRounds (smallEnv [] small_fits none) smallPrepared.fileCount 1 smallPrepared,
        ¬ ChoosesDisk (smallEnv [] small_fits none) r.1 r.2) :=
  rounds_choose_disk (idle_init _ _ _ _) small_prepares

/-- One file and no disk. -/
def disklessDocument : Document where
  root := .element "workload".toList [] [] [.element "config".toList [] []
    [.element "operation".toList [] [] [.element "files".toList [] "1".toList []]]]
  small := by decide

/-- **Without disks the load begins a round all the same**, and divides by zero in it. -/
theorem round_without_disk :
    let env := smallEnv [] small_fits none
    let s := (loadObjects env disklessDocument smallStart).state
    loadObjects env disklessDocument smallStart = .ok s ∧
      assignDiskId s 0 1 (env.rand 1) = none ∧
      ¬ ∀ r ∈ assignRounds env s.fileCount 1 s, ChoosesDisk env r.1 r.2 := by
  intro env s
  refine ⟨load_eq_of_isOk (by decide +kernel), by decide +kernel, fun h => ?_⟩
  have hcount : s.fileCount = 1 := by decide +kernel
  have hmem : (1, s) ∈ assignRounds env s.fileCount 1 s := by
    rw [hcount]
    exact List.mem_cons_self
  exact not_choosesDisk (show s.diskCount = 0 by decide +kernel) (h _ hmem)

/-! ## The reduction -/

/-- **A ratio is reduced faithfully.** Euclid's loop ends on the greatest common divisor; both values are stored
    divided by it, and what is stored is not reduced any further. Without a ratio both are stored as one. -/
theorem aspect_ratio_exact (value1 value2 : Nat) :
    (min value1 value2 ≠ 0 → ∀ fuel, min value1 value2 ≤ fuel →
      gcmLoop fuel (max value1 value2) (min value1 value2) = some (workloadGcmUint value1 value2)) ∧
    (value1 ≠ 0 → value2 ≠ 0 → ∃ g r1 r2, workloadAspectRatioUint value1 value2 = (g, r1, r2) ∧
      g = Nat.gcd value1 value2 ∧ r1 * g = value1 ∧ r2 * g = value2 ∧ 1 ≤ r1 ∧ 1 ≤ r2 ∧ Nat.Coprime r1 r2 ∧
      workloadAspectRatioUint r1 r2 = (1, r1, r2)) ∧
    (value1 = 0 ∨ value2 = 0 → workloadAspectRatioUint value1 value2 = (0, 1, 1)) := by
  refine ⟨fun hmin fuel hfuel => ?_, fun h1 h2 => ?_, fun hzero => if_pos hzero⟩
  · have h1 : value1 ≠ 0 := by omega
    have h2 : value2 ≠ 0 := by omega
    rw [gcmLoop_eq (Nat.pos_of_ne_zero hmin) hfuel, workloadGcmUint_eq h1 h2]
    -- the swap does not matter to the divisor
    rcases Nat.le_total value1 value2 with hle | hle
    · rw [max_eq_right hle, min_eq_left hle, Nat.gcd_comm]
    · rw [max_eq_left hle, min_eq_right hle]
  · have hpos : 0 < Nat.gcd value1 value2 := Nat.gcd_pos_of_pos_left _ (Nat.pos_of_ne_zero h1)
    have hr1 : 1 ≤ value1 / Nat.gcd value1 value2 := one_le_div_gcd h1
    have hr2 : 1 ≤ value2 / Nat.gcd value1 value2 := by
      rw [Nat.gcd_comm]
      exact one_le_div_gcd h2
    have hcop : Nat.Coprime (value1 / Nat.gcd value1 value2) (value2 / Nat.gcd value1 value2) :=
      Nat.coprime_div_gcd_div_gcd hpos
    refine ⟨_, _, _, workloadAspectRatioUint_eq h1 h2, rfl, Nat.div_mul_cancel (Nat.gcd_dvd_left _ _),
      Nat.div_mul_cancel (Nat.gcd_dvd_right _ _), hr1, hr2, hcop, ?_⟩
    rw [workloadAspectRatioUint_eq (by omega) (by omega), hcop.gcd_eq_one, Nat.div_one, Nat.div_one]

/-- `6 : 4` is reduced to `3 : 2`. -/
theorem aspect_ratio_small :
    gcmLoop 4 6 4 = some (workloadGcmUint 6 4) ∧ (∃ g r1 r2, workloadAspectRatioUint 6 4 = (g, r1, r2) ∧
      g = 2 ∧ r1 * g = 6 ∧ r2 * g = 4 ∧ Nat.Coprime r1 r2) ∧ workloadAspectRatioUint 0 4 = (0, 1, 1) := by
  refine ⟨(aspect_ratio_exact 6 4).1 (by decide) 4 (by decide), ?_, (aspect_ratio_exact 0 4).2.2 (Or.inl rfl)⟩
  obtain ⟨g, r1, r2, hstored, hg, h1, h2, -, -, hcop, -⟩ :=
    (aspect_ratio_exact 6 4).2.1 (by decide) (by decide)
  exact ⟨g, r1, r2, hstored, hg, h1, h2, hcop⟩

/-! ## The ratios -/

/-- What an access thread needs to draw an index: two positive ratios, and a sum that does not wrap. -/
def RatiosOk (s : State) : Prop :=
  1 ≤ s.cfg.leftRatio ∧ 1 ≤ s.cfg.rightRatio ∧
    accessRandomSum s = s.cfg.leftRatio + s.cfg.rightRatio ∧ accessRandomSum s ≠ 0

/-- The ratio asked for: the option, else the text of the element, else 1. -/
def givenRatio (doc : Document) (tag : Text) (opt : Nat) : Nat := (parseRatio doc tag opt []).1

theorem ratiosOk_iff (s : State) :
    RatiosOk s ↔ 1 ≤ s.cfg.leftRatio ∧ 1 ≤ s.cfg.rightRatio ∧
      s.cfg.leftRatio + s.cfg.rightRatio < 2 ^ 32 := by
  unfold RatiosOk accessRandomSum
  omega

theorem givenRatio_ne_zero (doc : Document) (tag : Text) (opt : Nat) : givenRatio doc tag opt ≠ 0 := by
  unfold givenRatio parseRatio
  dsimp only
  split_ifs with hopt
  · exact hopt
  · split
    · exact one_ne_zero
    · split_ifs with hzero
      · exact one_ne_zero
      · exact hzero

/-- The node an option or an element leaves behind does not matter for the ratio. -/
theorem parseRatio_fst (doc : Document) (tag : Text) (opt : Nat) (node : Node) :
    (parseRatio doc tag opt node).1 = givenRatio doc tag opt := by
  unfold givenRatio parseRatio
  split_ifs <;> rfl

/-- The operation stage stores the ratios asked for, reduced. -/
theorem parseOperation_ratios (doc : Document) (node : Node) (s : State) :
    let left := givenRatio doc "left".toList s.opt.leftRatio
    let right := givenRatio doc "right".toList s.opt.rightRatio
    (parseOperation doc node s).cfg.leftRatio = left / Nat.gcd left right ∧
      (parseOperation doc node s).cfg.rightRatio = right / Nat.gcd left right := by
  intro left right
  have hleft : left ≠ 0 := givenRatio_ne_zero doc _ _
  have hright : right ≠ 0 := givenRatio_ne_zero doc _ _
  have hratios : ∀ node node' : Node, workloadAspectRatioUint
      (parseRatio doc "left".toList s.opt.leftRatio node).1
      (parseRatio doc "right".toList s.opt.rightRatio node').1 =
        (Nat.gcd left right, left / Nat.gcd left right, right / Nat.gcd left right) := by
    intro node node'
    rw [parseRatio_fst, parseRatio_fst]
    exact workloadAspectRatioUint_eq hleft hright
  unfold parseOperation
  constructor
  · exact congrArg (fun x => x.2.1) (hratios _ _)
  · exact congrArg (fun x => x.2.2) (hratios _ _)

/-- The ratios behind a successful load. -/
theorem parseConfig_ratios {env : LoadEnv} {doc : Document} {s₀ s : State} (hidle : Idle s₀)
    (hload : parseConfig env doc s₀ = .ok s) :
    let left := givenRatio doc "left".toList s₀.opt.leftRatio
    let right := givenRatio doc "right".toList s₀.opt.rightRatio
    s.cfg.leftRatio = left / Nat.gcd left right ∧ s.cfg.rightRatio = right / Nat.gcd left right := by
  obtain ⟨db, filecount, hcfg⟩ := parseConfig_cfg hidle hload
  rw [hcfg]
  exact parseOperation_ratios doc (configNode doc ["meta".toList]) (s₀.setDb db)

/-! ## Commands -/

/-- A ratio as a command leaves it. -/
def CommandRatio (v : Nat) : Prop := 1 ≤ v ∧ v < 2 ^ 31

/-- A command changes the configuration only by setting one ratio, to what a positive `int` holds. -/
theorem workloadCmd_cfg (s : State) (code : Text) (ios : FilePtr → MoveIo) :
    (workloadCmd s code ios).cfg = s.cfg ∨ ∃ v, CommandRatio v ∧
      ((workloadCmd s code ios).cfg = { s.cfg with leftRatio := v } ∨
        (workloadCmd s code ios).cfg = { s.cfg with rightRatio := v }) := by
  have hrelocate : ∀ s : State, (workloadFileRelocate s ios).cfg = s.cfg := fun s =>
    congrArg Roster.cfg (@workloadFileRelocate_views s ios).1
  have hswitch : ∀ (s : State) (b : Bool), (workloadSetMainRelocate s b).cfg = s.cfg := fun s b =>
    congrArg Roster.cfg (relocateSwitch_views (s := s) (b := b)).1
  have hvalue : ∀ {argument}, 0 < atoi argument → CommandRatio (toUnsigned (atoi argument)) := fun hpos =>
    toUnsigned_of_pos hpos (atoi_bounds _).2
  apply workloadCmd_cases (motive := fun s' => s'.cfg = s.cfg ∨ ∃ v, CommandRatio v ∧
    (s'.cfg = { s.cfg with leftRatio := v } ∨ s'.cfg = { s.cfg with rightRatio := v }))
  case ignored => exact Or.inl rfl
  case stopped => exact fun _ => Or.inl rfl
  case paused => exact fun _ => Or.inl rfl
  case switched => exact fun b => Or.inl (hswitch s b)
  case relocated => exact Or.inl (hrelocate s)
  case switchRelocated => exact fun b => Or.inl ((hrelocate _).trans (hswitch s b))
  case reset => exact fun _ => Or.inl (congrArg Roster.cfg (workloadResetFileAccessCount_views (s := s)).1)
  case left => exact fun argument hpos => Or.inr ⟨_, hvalue hpos, Or.inl rfl⟩
  case right => exact fun argument hpos => Or.inr ⟨_, hvalue hpos, Or.inr rfl⟩

/-- While the access threads run, only commands change the configuration. -/
theorem run_cfg (s : State) {op : Op} (hop : WhileRunning op) :
    (op.run s).cfg = s.cfg ∨ ∃ v, CommandRatio v ∧
      ((op.run s).cfg = { s.cfg with leftRatio := v } ∨
        (op.run s).cfg = { s.cfg with rightRatio := v }) := by
  have hsame : ∀ {s' : State}, s'.roster = s.roster → s'.cfg = s.cfg := fun h => congrArg Roster.cfg h
  cases op with
  | load env => exact absurd hop id
  | unload io => exact absurd hop id
  | command code ios => exact workloadCmd_cfg s code ios
  | index env => exact Or.inl rfl
  | start env => exact Or.inl (hsame (startServices_views env s).1)
  | service d io => exact Or.inl (hsame diskServiceStep_views.1)
  | assign file disk io => exact Or.inl (hsame workloadAssignFileToDisk_views.1)
  | access file io => exact Or.inl (hsame workloadFileAccess_views.1)
  | reset => exact Or.inl (hsame workloadResetFileAccessCount_views.1)
  | setRelocate value => exact Or.inl (hsame relocateSwitch_views.1)
  | toggleRelocate => exact Or.inl (hsame relocateSwitch_views.1)
  | relocate ios => exact Or.inl (hsame workloadFileRelocate_views.1)
  | tick timeStamp => exact Or.inl rfl
  | screen height => exact Or.inl (hsame workloadUpdateScreen_views.1)

/-- **Invariant of the ratios**: none is more than half the range, and together they stay inside it. -/
structure RatiosFit (s : State) : Prop where
  left_pos : 1 ≤ s.cfg.leftRatio
  right_pos : 1 ≤ s.cfg.rightRatio
  left_le : s.cfg.leftRatio ≤ 2 ^ 31
  right_le : s.cfg.rightRatio ≤ 2 ^ 31
  sum_lt : s.cfg.leftRatio + s.cfg.rightRatio < 2 ^ 32

theorem RatiosFit.ok {s : State} (h : RatiosFit s) : RatiosOk s :=
  (ratiosOk_iff s).mpr ⟨h.left_pos, h.right_pos, h.sum_lt⟩

theorem RatiosFit.step {s : State} {op : Op} (h : RatiosFit s) (hop : WhileRunning op) :
    RatiosFit (op.run s) := by
  obtain ⟨hleft, hright, hleft', hright', hsum⟩ := h
  rcases run_cfg s hop with hcfg | ⟨v, ⟨hpos, hlt⟩, hcfg | hcfg⟩
  · constructor <;> rw [hcfg] <;> assumption
  · constructor <;> rw [hcfg] <;> dsimp only <;> omega
  · constructor <;> rw [hcfg] <;> dsimp only <;> omega

/-- Two reduced ratios of at most half the range do not both reach it. -/
theorem reduced_sum_lt {a b : Nat} (ha : a ≠ 0) (hleft : a / Nat.gcd a b ≤ 2 ^ 31)
    (hright : b / Nat.gcd a b ≤ 2 ^ 31) : a / Nat.gcd a b + b / Nat.gcd a b < 2 ^ 32 := by
  by_contra hsum
  have hpos : 0 < Nat.gcd a b := Nat.gcd_pos_of_pos_left b (Nat.pos_of_ne_zero ha)
  have hcoprime : Nat.gcd (a / Nat.gcd a b) (b / Nat.gcd a b) = 1 := Nat.coprime_div_gcd_div_gcd hpos
  have hl : a / Nat.gcd a b = 2 ^ 31 := by omega
  have hr : b / Nat.gcd a b = 2 ^ 31 := by omega
  rw [hl, hr, Nat.gcd_self] at hcoprime
  exact absurd hcoprime (by decide)

/-- **The access threads never divide by zero**, whatever is commanded, exactly when the load leaves no ratio
    above `2^31`. -/
theorem ratios_stay_ok {env : LoadEnv} {doc : Document} {s₀ s : State} (hidle : Idle s₀)
    (hload : parseConfig env doc s₀ = .ok s) :
    (∀ ops : List Op, (∀ op ∈ ops, WhileRunning op) → Always Op.run RatiosOk s ops) ↔
      givenRatio doc "left".toList s₀.opt.leftRatio / Nat.gcd
          (givenRatio doc "left".toList s₀.opt.leftRatio)
          (givenRatio doc "right".toList s₀.opt.rightRatio) ≤ 2 ^ 31 ∧
        givenRatio doc "right".toList s₀.opt.rightRatio / Nat.gcd
          (givenRatio doc "left".toList s₀.opt.leftRatio)
          (givenRatio doc "right".toList s₀.opt.rightRatio) ≤ 2 ^ 31 := by
  obtain ⟨hleft, hright⟩ := parseConfig_ratios hidle hload
  have hl := givenRatio_ne_zero doc "left".toList s₀.opt.leftRatio
  have hr := givenRatio_ne_zero doc "right".toList s₀.opt.rightRatio
  generalize givenRatio doc "left".toList s₀.opt.leftRatio = left at *
  generalize givenRatio doc "right".toList s₀.opt.rightRatio = right at *
  rw [← hleft, ← hright]
  constructor
  · intro h
    -- the largest value a command can set for the other side
    let other (c : Char) : Op := .command (c :: " 2147483647".toList) fun _ => smallMove
    constructor
    · have hrun := (ratiosOk_iff _).mp (h [other 'r'] fun op hop => by
        rw [List.mem_singleton.mp hop]; trivial).last
      have hset : (exec Op.run s [other 'r']).cfg = { s.cfg with rightRatio := 2147483647 } := rfl
      rw [hset] at hrun
      obtain ⟨-, -, hlt⟩ := hrun
      dsimp only at hlt
      omega
    · have hrun := (ratiosOk_iff _).mp (h [other 'l'] fun op hop => by
        rw [List.mem_singleton.mp hop]; trivial).last
      have hset : (exec Op.run s [other 'l']).cfg = { s.cfg with leftRatio := 2147483647 } := rfl
      rw [hset] at hrun
      obtain ⟨-, -, hlt⟩ := hrun
      dsimp only at hlt
      omega
  · rintro ⟨hle, hle'⟩ ops hops
    have hfit : RatiosFit s := by
      refine ⟨?_, ?_, hle, hle', ?_⟩
      · rw [hleft]
        exact one_le_div_gcd hl
      · rw [hright, Nat.gcd_comm]
        exact one_le_div_gcd hr
      · rw [hleft, hright] at *
        exact reduced_sum_lt hl hle hle'
    exact always_of_invariant (fun _ _ h hop => h.step hop) (fun _ h => h.ok) hfit (along_of_forall hops)

/-- Both ratios are 1. -/
theorem ratios_stay_ok_small :
    (∀ ops : List Op, (∀ op ∈ ops, WhileRunning op) → Always Op.run RatiosOk
      (parseConfig (smallEnv [] small_fits none) ⟨smallDocument [], small_fits⟩ smallStart).state ops) ↔
      1 / Nat.gcd 1 1 ≤ 2 ^ 31 ∧ 1 / Nat.gcd 1 1 ≤ 2 ^ 31 :=
  ratios_stay_ok (idle_init _ _ _ _) (load_eq_of_isOk (by decide +kernel))

/-- **`--left -1`** asks for the ratio `2^32 - 1`, and the sum wraps to zero as soon as the load is through. -/
theorem ratios_wrap :
    let x := parseConfig (smallEnv [] small_fits none) ⟨smallDocument [], small_fits⟩
      (workloadInit 0 id (fun _ _ => none) [("left".toList, "-1".toList)])
    x = .ok x.state ∧ accessRandomSum x.state = 0 ∧
      ¬ ∀ ops : List Op, (∀ op ∈ ops, WhileRunning op) → Always Op.run RatiosOk x.state ops := by
  intro x
  have hsum : accessRandomSum x.state = 0 := by decide +kernel
  refine ⟨load_eq_of_isOk (by decide +kernel), hsum, fun h => ?_⟩
  have hok : RatiosOk x.state := h [] nofun
  exact hok.2.2.2 hsum

end Workload
