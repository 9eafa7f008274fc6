import Workload.Model.System
import Workload.Correctness.Carried
import Workload.Correctness.Conservation

/-!
# `Correctness.Sampling` — the one-second throughput sample

`workload_update_screen` keeps the totals of the last sample and reports the difference. Only it writes them:
the reset and the unload set the totals back to zero and leave the values of the last sample behind. `Tracked`
runs a ghost beside the state, the number of accesses counted since the last sample or since the totals were
last set back, and `SampleSound` says that a sample taken now would report the ghost.

**Main result.** `sample_exact`: a run from `workload_init` stays sound exactly when the totals are only set
back while no earlier sample has seen an access, and no total passes `2^64-1`.
-/

namespace Workload

open Trace

/-! ## The totals and the sampled pair -/

/-- What the screen works with: the totals, and the values it keeps itself. -/
def State.tally (s : State) : Nat × Nat × Sampled := (s.readCount, s.writeCount, s.sampled)

variable {s s' : State} {f : FilePtr} {d : DiskPtr}

theorem tally_of_views (hcounters : s'.counters = s.counters) (hsampled : s'.sampled = s.sampled) :
    s'.tally = s.tally := by
  have hread : s'.readCount = s.readCount := congrArg Counters.read hcounters
  have hwrite : s'.writeCount = s.writeCount := congrArg Counters.write hcounters
  rw [State.tally, hread, hwrite, hsampled]
  rfl

/-! ## A load does not touch them -/

/-- Neither the objects of a configuration nor a query matter to them. -/
theorem carried_tally : Carried State.tally where
  heap := by
    intros
    rfl
  disk := by
    intros
    rfl
  query s stmt := by
    rw [querySet_snd]
    rfl

theorem fileCarried_tally : FileCarried State.tally where
  toCarried := carried_tally
  arrays := by
    intros
    rfl

theorem diskCarried_tally : DiskCarried State.tally where
  toCarried := carried_tally
  chain := by
    intros
    rfl

theorem openMeta_tally (env : LoadEnv) (node : Node) (s : State) :
    (openMeta env node s).state.tally = s.tally := by
  unfold openMeta
  dsimp only
  split
  · rfl
  · split_ifs
    · split <;> rfl
    · split <;> rfl
    · rfl

theorem queryGet_tally (s : State) (stmt : Stmt) : (queryGet s stmt).tally = s.tally := by
  obtain ⟨db, hdb⟩ := queryGet_eq s stmt
  rw [hdb]
  rfl

theorem dumpMeta_tally (s : State) : (dumpMeta s).state.tally = s.tally := by
  unfold dumpMeta
  dsimp only
  split_ifs
  · exact (queryGet_tally _ _).trans (queryGet_tally _ _)
  · exact queryGet_tally _ _
  · exact queryGet_tally _ _
  · rfl
  · rfl

theorem resetMeta_tally (s : State) : (resetMeta s).state.tally = s.tally := by
  have hreset : (workloadResetDb s).2.tally = s.tally := by
    unfold workloadResetDb
    cases s.db with
    | none => rfl
    | some db =>
        obtain ⟨db', hdb', -⟩ := querySets_snd [.dropFile, .dropDisk, .createDisk, .createFile] s
        dsimp only
        rw [hdb']
        rfl
  unfold resetMeta
  cases s.db with
  | none => rfl
  | some db =>
      dsimp only
      split_ifs
      · exact hreset
      · exact hreset
      · exact hreset

/-- **A load keeps totals and samples.** -/
theorem startLoad_tally (env : LoadEnv) (s : State) : (startLoad env s).tally = s.tally := by
  have hrest : ∀ doc node s, State.tally (Load.state
      (loadDisks env doc (parseOperation doc node s) >>= fun s => loadFiles env s)) = s.tally := by
    intro doc node s
    obtain ⟨pause, cfg, hparse, -⟩ := parseOperation_eq doc node s
    refine Eq.trans (Carried.bind (diskCarried_tally.loadDisks env doc) fun s => fileCarried_tally.loadFiles env) ?_
    rw [hparse]
    rfl
  unfold startLoad
  split
  · rfl
  · split
    · rfl
    · rename_i file doc _
      refine Eq.trans (Carried.bind (s := { s with
        xml := some doc, cfg := { s.cfg with configFile := some file } }) ?_ fun s₁ => ?_) rfl
      · refine Carried.bind (openMeta_tally env _ _) fun s₁ => ?_
        refine Carried.bind (dumpMeta_tally s₁) fun s₂ => ?_
        exact Carried.bind (resetMeta_tally s₂) fun s₃ => hrest _ _ s₃
      · refine Carried.bind (fileCarried_tally.assignLoop env _ 1) fun s₂ => ?_
        exact (carried_tally.startServices env).trans (carried_tally.indexFiles env)

/-! ## What a call does to them -/

/-- The reads and writes a call counts. -/
def counted (s : State) : Op → Nat × Nat
  | .service d _ =>
      match (s.disks d).service with
      | some (.count _) => (0, 1)
      | _ => (0, 0)
  | .access (some f) io =>
      match (s.files f).assignDisk with
      | none => (0, 0)
      | some d => if io.path then (accessTransfer s f d io).1 else (0, 0)
  | _ => (0, 0)

/-- The call sets the totals back. -/
def clears : Op → Bool
  | .unload _ => true
  | .reset => true
  | .command code _ => code == ['!']
  | _ => false

/-- The call takes a sample. -/
def samples (s : State) : Op → Bool
  | .screen height =>
      !s.opt.daemonize && decide (20 < height) && decide (1000 ≤ sub64 s.timeStamp s.timeStamp1sec)
  | _ => false

theorem unload_tally (s : State) (io : DeassignIo) :
    (workloadUnloadConfig s io).tally = (0, 0, s.sampled) := by
  have hdisks : ∀ t : State,
      (workloadFreeDisk (workloadFreeDiskArray { t with fileHead := [] })).tally = t.tally := fun t =>
    diskCarried_tally.workloadFreeDisk.trans diskCarried_tally.workloadFreeDiskArray
  have hfile : State.tally (workloadFreeFile (workloadFreeFileArray { s with nextFileIndex := none })
      (workloadFreeFileArray { s with nextFileIndex := none }).fileHead.head? io) = s.tally :=
    (carried_tally.workloadFreeFile _ io).trans fileCarried_tally.workloadFreeFileArray
  exact congrArg (fun tally => (0, 0, tally.2.2)) ((hdisks _).trans hfile)

theorem reset_tally (s : State) : (workloadResetFileAccessCount s).tally = (0, 0, s.sampled) :=
  congrArg (fun sampled => (0, 0, sampled)) workloadResetFileAccessCount_views.2.2.2.2.2.1

theorem setMainRelocate_tally (s : State) (b : Bool) : (workloadSetMainRelocate s b).tally = s.tally := by
  have hcounters : (workloadSetMainRelocate s b).counters = s.counters.restart s.diskHead :=
    relocateSection_counters
  have hread : (workloadSetMainRelocate s b).readCount = s.readCount := congrArg Counters.read hcounters
  have hwrite : (workloadSetMainRelocate s b).writeCount = s.writeCount :=
    congrArg Counters.write hcounters
  rw [State.tally, hread, hwrite, relocateSwitch_views.2.2.2.2.2.1]
  rfl

theorem relocate_tally (s : State) (ios : FilePtr → MoveIo) : (workloadFileRelocate s ios).tally = s.tally :=
  tally_of_views workloadFileRelocate_views.2.1 workloadFileRelocate_views.2.2.2.1

/-- Of the commands only `!` sets the totals back, and none counts. -/
theorem workloadCmd_tally (s : State) (code : Text) (ios : FilePtr → MoveIo) :
    (workloadCmd s code ios).tally = if code = ['!'] then (0, 0, s.sampled) else s.tally := by
  by_cases hreset : code = ['!']
  · rw [if_pos hreset, hreset]
    exact reset_tally s
  · rw [if_neg hreset]
    apply workloadCmd_cases (motive := fun s' => s'.tally = s.tally)
    case ignored => rfl
    case stopped => exact fun _ => rfl
    case paused => exact fun _ => rfl
    case switched => exact setMainRelocate_tally s
    case relocated => exact relocate_tally s ios
    case switchRelocated =>
      intro b
      exact (relocate_tally _ ios).trans (setMainRelocate_tally s b)
    case reset => exact fun hcode => absurd hcode hreset
    case left => exact fun _ _ => rfl
    case right => exact fun _ _ => rfl

/-- The totals fit into 64 bits. -/
def TotalsFit (s : State) : Prop := s.readCount < 2 ^ 64 ∧ s.writeCount < 2 ^ 64

/-- The tally when the totals go up by `c`. -/
def State.tallyPlus (s : State) (c : Nat × Nat) : Nat × Nat × Sampled :=
  (add64 s.readCount c.1, add64 s.writeCount c.2, s.sampled)

theorem TotalsFit.tallyPlus_zero (h : TotalsFit s) : s.tallyPlus (0, 0) = s.tally := by
  unfold State.tallyPlus State.tally
  rw [add64_of_lt (show s.readCount + 0 < 2 ^ 64 from h.1),
    add64_of_lt (show s.writeCount + 0 < 2 ^ 64 from h.2)]
  rfl

/-- A service counts one write where it stands at `count`. -/
theorem service_tally (h : TotalsFit s) (d : DiskPtr) (io : ServiceIo) :
    (diskServiceStep s d io).tally = s.tallyPlus (counted s (.service d io)) := by
  unfold diskServiceStep counted
  dsimp only
  cases (s.disks d).service with
  | none => exact h.tallyPlus_zero.symm
  | some pc =>
      cases pc with
      | start =>
          dsimp only
          split_ifs <;> exact h.tallyPlus_zero.symm
      | walk file =>
          cases file with
          | none => exact h.tallyPlus_zero.symm
          | some f =>
              dsimp only
              split_ifs <;> exact h.tallyPlus_zero.symm
      | count f =>
          have hread : (serviceSection s f d).readCount = s.readCount :=
            congrArg Counters.read serviceSection_counters
          have hwrite : (serviceSection s f d).writeCount = add64 s.writeCount 1 :=
            congrArg Counters.write serviceSection_counters
          show (serviceSection s f d).tally = _
          unfold State.tally State.tallyPlus
          rw [hread, hwrite, serviceSection_views.2.2.2.2.2.1]
          exact congrArg (·, _) (add64_of_lt (show s.readCount + 0 < 2 ^ 64 from h.1)).symm
      | leave => exact h.tallyPlus_zero.symm
      | ready => exact h.tallyPlus_zero.symm
      | failed => exact h.tallyPlus_zero.symm

/-- An access counts what its transfer found. -/
theorem access_tally (h : TotalsFit s) (file : Option FilePtr) (io : AccessIo) :
    (workloadFileAccess s file io).2.tally = s.tallyPlus (counted s (.access file io)) := by
  cases file with
  | none => exact h.tallyPlus_zero.symm
  | some f =>
      unfold workloadFileAccess counted
      dsimp only
      cases (s.files f).assignDisk with
      | none => exact h.tallyPlus_zero.symm
      | some d =>
          have hviews := @accessTransfer_views s f d io
          have htransfer := tally_of_views hviews.2.2.1 hviews.2.2.2.2.2.1
          cases hpath : io.path with
          | false => exact h.tallyPlus_zero.symm
          | true =>
              dsimp only
              rw [if_neg (by decide), if_pos rfl]
              split_ifs with hcount
              · have hcounters : (accessSection (accessTransfer s f d io).2 f (accessTransfer s f d io).1.1
                    (accessTransfer s f d io).1.2).counters =
                    s.counters.access f ((accessTransfer s f d io).2.placement.home f)
                      (accessTransfer s f d io).1.1 (accessTransfer s f d io).1.2 := by
                  rw [accessSection_views.2.2.1, countAccess_counters, hviews.2.2.1]
                have hsampled := accessSection_views (s := (accessTransfer s f d io).2) (f := f)
                  (r := (accessTransfer s f d io).1.1) (w := (accessTransfer s f d io).1.2) |>.2.2.2.2.1
                have hread := congrArg Counters.read hcounters
                have hwrite := congrArg Counters.write hcounters
                exact Prod.ext hread (Prod.ext hwrite (hsampled.trans hviews.2.2.2.2.2.1))
              · -- neither a read nor a write
                obtain ⟨hr, hw⟩ := Nat.add_eq_zero_iff.mp (Nat.eq_zero_of_not_pos hcount)
                have hzero : (accessTransfer s f d io).1 = (0, 0) := Prod.ext hr hw
                rw [hzero]
                exact htransfer.trans h.tallyPlus_zero.symm

/-- **What a call does to the totals and the sampled pair.** -/
theorem run_tally (h : TotalsFit s) (op : Op) :
    (op.run s).tally =
      if clears op then (0, 0, s.sampled)
      else if samples s op then
        (s.readCount, s.writeCount, ⟨s.readCount, s.writeCount, sub64 s.readCount s.readCountPrev,
          sub64 s.writeCount s.writeCountPrev⟩)
      else s.tallyPlus (counted s op) := by
  cases op with
  | load env => exact (startLoad_tally env s).trans h.tallyPlus_zero.symm
  | unload io => exact unload_tally s io
  | index env => exact h.tallyPlus_zero.symm
  | start env => exact (carried_tally.startServices env).trans h.tallyPlus_zero.symm
  | service d io => exact service_tally h d io
  | assign file disk io =>
      have hviews := @workloadAssignFileToDisk_views s file disk io
      exact (tally_of_views hviews.2.1 hviews.2.2.2.2.1).trans h.tallyPlus_zero.symm
  | access file io => exact access_tally h file io
  | reset => exact reset_tally s
  | setRelocate value => exact (setMainRelocate_tally s value).trans h.tallyPlus_zero.symm
  | toggleRelocate => exact (setMainRelocate_tally s _).trans h.tallyPlus_zero.symm
  | relocate ios => exact (relocate_tally s ios).trans h.tallyPlus_zero.symm
  | command code ios =>
      refine (workloadCmd_tally s code ios).trans ?_
      show _ = if (code == ['!']) = true then _ else s.tallyPlus (0, 0)
      rw [h.tallyPlus_zero]
      simp only [beq_iff_eq]
  | tick timeStamp => exact h.tallyPlus_zero.symm
  | screen height =>
      show (workloadUpdateScreen s height).tally = if samples s (.screen height) then _ else s.tallyPlus (0, 0)
      rw [h.tallyPlus_zero]
      unfold workloadUpdateScreen samples
      cases s.opt.daemonize with
      | true => rfl
      | false =>
          by_cases hheight : 20 < height
          · by_cases htime : 1000 ≤ sub64 s.timeStamp s.timeStamp1sec
            · simp [Nat.not_le.mpr hheight, hheight, htime, Nat.not_lt.mpr htime, State.tally,
                State.sampled]
            · simp [Nat.not_le.mpr hheight, htime, Nat.lt_of_not_le htime]
          · simp [Nat.le_of_not_lt hheight, hheight]

/-! ## The ghost -/

/-- A state with the number of reads and writes counted since the last sample, or since the totals were last
    set back. -/
structure Tracked where
  state : State
  reads : Nat
  writes : Nat

/-- One call, beside the ghost. -/
def Tracked.step (t : Tracked) (op : Op) : Tracked where
  state := op.run t.state
  reads := if clears op || samples t.state op then 0 else t.reads + (counted t.state op).1
  writes := if clears op || samples t.state op then 0 else t.writes + (counted t.state op).2

/-- The values of the last sample are at most the totals, and a sample taken now reports the ghost. -/
structure SampleSound (t : Tracked) : Prop where
  readPrev : t.state.readCountPrev ≤ t.state.readCount
  writePrev : t.state.writeCountPrev ≤ t.state.writeCount
  read : sub64 t.state.readCount t.state.readCountPrev = t.reads
  write : sub64 t.state.writeCount t.state.writeCountPrev = t.writes

/-- The condition on a call: what sets the totals back comes before any sample that saw an access, and no
    total passes `2^64-1`. -/
def SampleOk (t : Tracked) (op : Op) : Prop :=
  (clears op = true → t.state.readCountPrev = 0 ∧ t.state.writeCountPrev = 0) ∧
  t.state.readCount + (counted t.state op).1 < 2 ^ 64 ∧
  t.state.writeCount + (counted t.state op).2 < 2 ^ 64

/-- The totals always fit: they are sums modulo `2^64`. -/
theorem TotalsFit.step {t : Tracked} (h : TotalsFit t.state) (op : Op) :
    TotalsFit (t.step op).state := by
  have htally := run_tally h op
  have hread := congrArg Prod.fst htally
  have hwrite := congrArg (fun tally => tally.2.1) htally
  unfold TotalsFit
  show (op.run t.state).tally.1 < _ ∧ (op.run t.state).tally.2.1 < _
  rw [hread, hwrite]
  split_ifs
  · exact ⟨Nat.two_pow_pos 64, Nat.two_pow_pos 64⟩
  · exact h
  · exact ⟨Nat.mod_lt _ (Nat.two_pow_pos 64), Nat.mod_lt _ (Nat.two_pow_pos 64)⟩

/-- The clauses of `SampleSound`, for one total `c` with its last sample `p` and ghost `g`. -/
theorem sound_iff {c p g : Nat} (hc : c < 2 ^ 64) : p ≤ c ∧ sub64 c p = g ↔ p + g = c := by
  constructor
  · rintro ⟨hle, hsub⟩
    rw [sub64_of_le hle hc] at hsub
    omega
  · intro h
    have hle : p ≤ c := by omega
    refine ⟨hle, ?_⟩
    rw [sub64_of_le hle hc]
    omega

/-- A sum is not wrapped exactly when it fits. -/
theorem add64_eq_iff {a k : Nat} : a + k = add64 a k ↔ a + k < 2 ^ 64 := by
  constructor
  · intro h
    rw [h]
    exact Nat.mod_lt _ (Nat.two_pow_pos 64)
  · exact fun h => (add64_of_lt h).symm

theorem sampleSound_iff {t : Tracked} (h : TotalsFit t.state) :
    SampleSound t ↔ t.state.readCountPrev + t.reads = t.state.readCount ∧
      t.state.writeCountPrev + t.writes = t.state.writeCount := by
  rw [← sound_iff h.1, ← sound_iff h.2]
  constructor
  · exact fun hs => ⟨⟨hs.readPrev, hs.read⟩, hs.writePrev, hs.write⟩
  · exact fun hs => ⟨hs.1.1, hs.2.1, hs.1.2, hs.2.2⟩

/-- **Step lemma.** Out of a sound state a call leads to a sound one exactly when it meets the condition. -/
theorem sampleSound_step {t : Tracked} (h : TotalsFit t.state) (hs : SampleSound t) (op : Op) :
    SampleSound (t.step op) ↔ SampleOk t op := by
  have htally := run_tally h op
  have hread : (t.step op).state.readCount = (op.run t.state).tally.1 := rfl
  have hwrite : (t.step op).state.writeCount = (op.run t.state).tally.2.1 := rfl
  have hreadPrev : (t.step op).state.readCountPrev = (op.run t.state).tally.2.2.readPrev := rfl
  have hwritePrev : (t.step op).state.writeCountPrev = (op.run t.state).tally.2.2.writePrev := rfl
  have hnone : counted t.state op = (0, 0) ∨ clears op = false ∧ samples t.state op = false := by
    cases op with
    | service d io => exact Or.inr ⟨rfl, rfl⟩
    | access file io => exact Or.inr ⟨rfl, rfl⟩
    | _ => exact Or.inl rfl
  obtain ⟨hreads, hwrites⟩ := (sampleSound_iff h).mp hs
  rw [sampleSound_iff (h.step op), hread, hwrite, hreadPrev, hwritePrev, htally]
  unfold SampleOk Tracked.step
  cases hclears : clears op with
  | true =>
      have hc : counted t.state op = (0, 0) := hnone.resolve_right fun hno => by
        rw [hclears] at hno
        exact Bool.noConfusion hno.1
      simp only [hc, if_true, Bool.true_or]
      exact ⟨fun hzero => ⟨fun _ => hzero, h⟩, fun hok => hok.1 trivial⟩
  | false =>
      cases hsamples : samples t.state op with
      | true =>
          have hc : counted t.state op = (0, 0) := hnone.resolve_right fun hno => by
            rw [hsamples] at hno
            exact Bool.noConfusion hno.2
          simp only [hc, Bool.false_eq_true, if_false, if_true, Bool.or_true]
          exact ⟨fun _ => ⟨nofun, h⟩, fun _ => ⟨rfl, rfl⟩⟩
      | false =>
          simp only [Bool.false_eq_true, if_false, Bool.or_false]
          rw [← Nat.add_assoc, ← Nat.add_assoc]
          show (t.state.readCountPrev + t.reads + _ = add64 _ _ ∧
            t.state.writeCountPrev + t.writes + _ = add64 _ _) ↔ _
          rw [hreads, hwrites, add64_eq_iff, add64_eq_iff]
          exact ⟨fun hlt => ⟨nofun, hlt⟩, fun hok => hok.2⟩

/-- The ghost beside the state behind `workload_init`. -/
def Tracked.init (timeStamp : Nat) (directory : Text → Text) (fs : Text → Text → Option Bytes)
    (options : List (Text × Text)) : Tracked := ⟨workloadInit timeStamp directory fs options, 0, 0⟩

theorem init_tally (timeStamp : Nat) (directory : Text → Text) (fs : Text → Text → Option Bytes)
    (options : List (Text × Text)) :
    (workloadInit timeStamp directory fs options).tally = (0, 0, ⟨0, 0, 0, 0⟩) := by
  have hoption : ∀ s option, (parseOptionCase s option).tally = s.tally := by
    intro s option
    obtain ⟨opt, h⟩ | h := parseOptionCase_cases s option
    · rw [h]
      rfl
    · rw [h]
      exact setMainRelocate_tally s true
  unfold workloadInit
  rw [foldl_keeps (p := State.tally) hoption]
  rfl

/-- **The sample is right in every state exactly when every call meets the condition**, and then every sample
    that is taken is the number of accesses counted since the last one or since the totals were set back. -/
theorem sample_exact (timeStamp : Nat) (directory : Text → Text) (fs : Text → Text → Option Bytes)
    (options : List (Text × Text)) (ops : List Op) :
    (Always Tracked.step SampleSound (.init timeStamp directory fs options) ops ↔
      Along Tracked.step SampleOk (.init timeStamp directory fs options) ops) ∧
    (Along Tracked.step SampleOk (.init timeStamp directory fs options) ops →
      Along Tracked.step (fun t op => samples t.state op = true →
        (t.step op).state.readCount1sec = t.reads ∧ (t.step op).state.writeCount1sec = t.writes)
        (.init timeStamp directory fs options) ops) := by
  have htally := init_tally timeStamp directory fs options
  have hread : (workloadInit timeStamp directory fs options).readCount = 0 := congrArg Prod.fst htally
  have hwrite : (workloadInit timeStamp directory fs options).writeCount = 0 :=
    congrArg (fun tally => tally.2.1) htally
  have hreadPrev : (workloadInit timeStamp directory fs options).readCountPrev = 0 :=
    congrArg (fun tally => tally.2.2.readPrev) htally
  have hwritePrev : (workloadInit timeStamp directory fs options).writeCountPrev = 0 :=
    congrArg (fun tally => tally.2.2.writePrev) htally
  have hfit : TotalsFit (Tracked.init timeStamp directory fs options).state := by
    refine ⟨?_, ?_⟩
    · exact hread ▸ Nat.two_pow_pos 64
    · exact hwrite ▸ Nat.two_pow_pos 64
  have hsound : SampleSound (.init timeStamp directory fs options) :=
    (sampleSound_iff hfit).mpr ⟨hreadPrev.trans hread.symm, hwritePrev.trans hwrite.symm⟩
  refine ⟨?_, fun hok => ?_⟩
  · have hstep : ∀ (t : Tracked) op, TotalsFit t.state → True → TotalsFit (t.step op).state :=
      fun t op h _ => h.step op
    exact always_iff_along hstep (fun t op h hs _ => sampleSound_step h hs op) hfit hsound
      (along_true _ _)
  · refine along_of_invariant (fun t op h hok => ⟨h.1.step op, (sampleSound_step h.1 h.2 op).mpr hok⟩)
      (fun t op (h : TotalsFit t.state ∧ SampleSound t) _ hsamples => ?_) ⟨hfit, hsound⟩ hok
    have hnot : clears op = false := by
      cases op with
      | screen height => rfl
      | _ => exact Bool.noConfusion hsamples
    have hrun := run_tally h.1 op
    rw [hnot, if_neg Bool.false_ne_true, if_pos hsamples] at hrun
    exact ⟨(congrArg (fun tally => tally.2.2.read1sec) hrun).trans h.2.read,
      (congrArg (fun tally => tally.2.2.write1sec) hrun).trans h.2.write⟩

/-- Two files are written while the load waits, the screen samples, the counters are reset, the screen samples
    again: the reset leaves the value of the first sample behind, and the second one reports `2^64-2` writes. -/
theorem sample_wraps :
    let calls : List Op := smallRun (smallEnv [] small_fits none) ++ [.tick 1000, .screen 24, .reset]
    (exec Tracked.step (.init 0 id (fun _ _ => none) []) calls).state.diskReadyCount = 2 ∧
      ¬ Always Tracked.step SampleSound (.init 0 id (fun _ _ => none) []) calls ∧
      (exec Tracked.step (.init 0 id (fun _ _ => none) [])
        (calls ++ [.tick 2000, .screen 24])).state.writeCount1sec = 2 ^ 64 - 2 := by
  intro calls
  refine ⟨by decide +kernel, fun h => ?_, by decide +kernel⟩
  have hfinal : SampleSound (exec Tracked.step (.init 0 id (fun _ _ => none) []) calls) := h.last
  exact absurd hfinal.writePrev (by decide +kernel)

end Workload
