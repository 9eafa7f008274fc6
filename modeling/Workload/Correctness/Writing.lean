import Workload.Correctness.Copies

/-!
# `Correctness.Writing` — the start-up writing, byte by byte

A disk service fills each file of its disk once and counts it. The loop that fills a file ends on a write that
transfers nothing or fails, and nothing behind the loop looks at how far it got: such a file is counted like
the others, and no error is reported. `startWrites` lists the writes of a start-up.

* **`Serving.write_once`** — every file is written by exactly one step of the service of its disk.
* **`startWrites_fs`** — what stands in a path behind the wait.
* **`start_writes_full`** — a load that succeeds wrote every file in full, exactly when no write of the
  start-up transferred nothing or failed before its file was full.
-/

namespace Workload

/-! ## The loop that fills a file -/

/-- The bytes missing before round `k + j`, with `want` missing before round `k`. -/
def missing (rounds : Nat → IoRound) : Nat → Nat → Nat → Nat
  | 0, _, want => want
  | j + 1, k, want => missing rounds j (k + 1) (want - min ((rounds k).write.getD 0) (min want 4096))

/-- No write transfers nothing or fails as long as bytes are missing. -/
def FillsUp (rounds : Nat → IoRound) (k want : Nat) : Prop :=
  ∀ j, 0 < missing rounds j k want → ∃ w, 0 < w ∧ (rounds (k + j)).write = some w

theorem missing_zero (rounds : Nat → IoRound) (j k : Nat) : missing rounds j k 0 = 0 := by
  induction j generalizing k with
  | zero => rfl
  | succ j ih =>
      unfold missing
      rw [Nat.zero_sub]
      exact ih (k + 1)

/-- The first round, and the others. -/
theorem fillsUp_iff {rounds : Nat → IoRound} {k want : Nat} :
    FillsUp rounds k want ↔ want = 0 ∨ ∃ w, 0 < w ∧ (rounds k).write = some w ∧
      FillsUp rounds (k + 1) (want - min w (min want 4096)) := by
  constructor
  · intro h
    rcases Nat.eq_zero_or_pos want with hzero | hpos
    · exact Or.inl hzero
    · obtain ⟨w, hw, hwrite⟩ := h 0 hpos
      refine Or.inr ⟨w, hw, hwrite, fun j hj => ?_⟩
      rw [Nat.add_right_comm, Nat.add_assoc]
      refine h (j + 1) ?_
      unfold missing
      rw [show (rounds k).write = some w from hwrite]
      exact hj
  · rintro (rfl | ⟨w, hw, hwrite, h⟩) j hj
    · rw [missing_zero] at hj
      exact absurd hj (Nat.lt_irrefl 0)
    · cases j with
      | zero => exact ⟨w, hw, hwrite⟩
      | succ j =>
          unfold missing at hj
          rw [hwrite] at hj
          rw [← Nat.add_assoc, Nat.add_right_comm]
          exact h j hj

/-- **The loop transfers everything**, without a break, exactly when it is not cut short by a write. -/
theorem fillLoop_full {rounds : Nat → IoRound} (hbrk : ∀ k, (rounds k).brk = false) {fuel k want : Nat}
    {out : Bytes} (hfuel : want ≤ fuel) :
    (fillLoop rounds fuel k want out).length = out.length + want ↔ FillsUp rounds k want := by
  induction fuel generalizing k want out with
  | zero =>
      obtain rfl : want = 0 := Nat.le_zero.mp hfuel
      rw [fillsUp_iff]
      exact ⟨fun _ => Or.inl rfl, fun _ => rfl⟩
  | succ fuel ih =>
      rw [fillsUp_iff]
      unfold fillLoop
      rw [hbrk k]
      by_cases hzero : want = 0
      · simp [hzero]
      have hshort : ¬(out.length = out.length + want) := by omega
      simp only [hzero, Bool.false_eq_true, or_self, if_false, false_or]
      cases hwrite : (rounds k).write with
      | none =>
          refine ⟨fun h => absurd h hshort, ?_⟩
          rintro ⟨w, -, hsome, -⟩
          exact nomatch hsome
      | some w =>
          dsimp only
          by_cases hw : w = 0
          · rw [if_pos (by rw [hw, Nat.zero_min])]
            refine ⟨fun h => absurd h hshort, ?_⟩
            rintro ⟨w', hpos, hsome, -⟩
            exact absurd ((Option.some.inj hsome).symm.trans hw) hpos.ne'
          · have hpos : min w (min want 4096) ≠ 0 := by omega
            rw [if_neg hpos]
            have hrec := @ih (k + 1) (want - min w (min want 4096))
              (out ++ (List.range (min w (min want 4096))).map (rounds k).fill) (by omega)
            rw [List.length_append, List.length_map, List.length_range] at hrec
            have hsum : out.length + min w (min want 4096) + (want - min w (min want 4096)) =
                out.length + want := by omega
            rw [hsum] at hrec
            rw [hrec]
            constructor
            · exact fun h => ⟨w, Nat.pos_of_ne_zero hw, rfl, h⟩
            · rintro ⟨w', -, hsome, h⟩
              rw [Option.some.inj hsome]
              exact h

/-! ## The writes of a start-up -/

/-- One file written by a disk service: its path, and the outcomes of the writes. -/
structure StartWrite where
  file : FilePtr
  dir : Text
  name : Text
  rounds : Nat → IoRound

/-- The write in a step of the service of `d`. -/
def startWrite (s : State) (d : DiskPtr) (io : ServiceIo) : Option StartWrite :=
  match (s.disks d).service with
  | some (.walk (some f)) =>
      let dir := s.dir d
      let name := (s.files f).filename
      if io.path = false then none
      else if (io.excl && (s.fs dir name).isNone) = false ∧ io.trunc = false then none
      else some ⟨f, dir, name, io.rounds⟩
  | _ => none

/-- The bytes `workload_write` accepts in it. -/
def StartWrite.bytes (filesize : Int) (w : StartWrite) : Bytes :=
  fillLoop w.rounds filesize.toNat 0 filesize.toNat []

/-- The writes while the load waits for the services. -/
def startWrites : List WaitEvent → State → List StartWrite
  | [], _ => []
  | .service d io :: events, s => (startWrite s d io).toList ++ startWrites events (diskServiceStep s d io)
  | .poll brk :: events, s =>
      if brk = true ∨ 0 < s.diskErrorCount ∨ s.diskCount ≤ s.diskReadyCount then []
      else startWrites events s

/-- The number of bytes accepted into a path. -/
def acceptedBytes (filesize : Int) (writes : List StartWrite) (dir name : Text) : Nat :=
  ((writes.filter fun w => w.dir = dir ∧ w.name = name).map fun w => (w.bytes filesize).length).sum

/-- A step stores what its write accepts; a step without a write leaves the file system alone. -/
theorem startWrite_step (s : State) (d : DiskPtr) (io : ServiceIo) :
    (diskServiceStep s d io).fs = match startWrite s d io with
      | some w => (s.setPath w.dir w.name (some (w.bytes s.cfg.filesize))).fs
      | none => s.fs := by
  unfold diskServiceStep startWrite
  cases (s.disks d).service with
  | none => rfl
  | some pc =>
      cases pc with
      | walk file =>
          cases file with
          | none => rfl
          | some f =>
              dsimp only
              split_ifs <;> rfl
      | start =>
          dsimp only
          split_ifs <;> rfl
      | count f => exact congrArg Contents.fs (serviceSection_views (s := s) (f := f) (d := d)).2.2.2.2.1
      | leave => rfl
      | ready => rfl
      | failed => rfl

/-- What stands in a path behind a wait that ends well: the bytes of the last write into it, if there is one. -/
theorem startWrites_fs {events : List WaitEvent} {s u : State} (hrun : waitServices events s = .ok u)
    (dir name : Text) :
    u.fs dir name = (((startWrites events s).filter fun w => w.dir = dir ∧ w.name = name).getLast?.map
      fun w => w.bytes s.cfg.filesize).or (s.fs dir name) := by
  induction events generalizing s with
  | nil => exact nomatch hrun
  | cons event events ih =>
      cases event with
      | service d io =>
          have hcfg : (diskServiceStep s d io).cfg = s.cfg := congrArg Roster.cfg diskServiceStep_views.1
          have hstep := congrFun (congrFun (startWrite_step s d io) dir) name
          have hcons : startWrites (.service d io :: events) s =
              (startWrite s d io).toList ++ startWrites events (diskServiceStep s d io) := rfl
          rw [ih hrun, hcfg, hstep, hcons, List.filter_append, List.getLast?_append]
          generalize ((startWrites events (diskServiceStep s d io)).filter
            fun w => w.dir = dir ∧ w.name = name).getLast? = last
          cases startWrite s d io with
          | none => simp
          | some w =>
              dsimp only
              rw [State.setPath_fs]
              by_cases hpath : w.dir = dir ∧ w.name = name
              · rw [if_pos ⟨hpath.1.symm, hpath.2.symm⟩]
                cases last <;> simp [hpath]
              · rw [if_neg fun h => hpath ⟨h.1.symm, h.2.symm⟩]
                cases last <;> simp [hpath]
      | poll brk =>
          unfold waitServices at hrun
          unfold startWrites
          split_ifs at hrun with hbrk herror hready
          · obtain rfl := Except.ok.inj hrun
            rw [if_pos (Or.inr (Or.inr hready))]
            rfl
          · rw [if_neg (by simp [hbrk, herror, hready])]
            exact ih hrun

/-- How often file `f` of disk `d` has been written: counted, or about to be counted. -/
def progress (s : State) (d : DiskPtr) (f : FilePtr) : Nat :=
  s.counters.fileWrite f + if (s.disks d).service = some (.count f) then 1 else 0

section Steps

variable {seats : DiskPtr → List FilePtr} {s₀ s s₁ : State} {d e : DiskPtr} {f : FilePtr} {pc : ServicePc}

/-- A step that counts nothing and neither begins nor ends a write. -/
theorem progress_setPc (hwrite : s₁.counters.fileWrite f = s.counters.fileWrite f)
    (hservice : d ≠ e → (s₁.disks d).service = (s.disks d).service)
    (hold : d = e → (s.disks d).service ≠ some (.count f)) (hpc : d = e → pc ≠ .count f) :
    progress (setPc s₁ e pc) d f = progress s d f := by
  unfold progress
  rw [setPc_views.2.2.1, hwrite, setPc_service]
  by_cases hde : d = e
  · rw [if_pos hde, if_neg (hold hde), if_neg fun h => hpc hde (Option.some.inj h)]
  · rw [if_neg hde, hservice hde]

/-- **Step lemma**: a step of a service moves on exactly the file it writes. -/
theorem Serving.progress_step (h : Serving seats s₀ s)
    (hseats : Seated s.diskHead s.fileHead s.placement seats) (hd : d ∈ s.diskHead) (hf : f ∈ seats d)
    (e : DiskPtr) (io : ServiceIo) :
    progress (diskServiceStep s e io) d f =
      progress s d f + (startWrite s e io).toList.countP fun w => w.file = f := by
  by_cases he : e ∈ s.diskHead
  case neg =>
    unfold diskServiceStep startWrite
    rw [h.idle e he]
    rfl
  obtain ⟨done, rest, hsplit, hs⟩ := h.served e he
  have hpc := hs.pc
  -- a file of `e` is the file of `d` only when the two disks are the same
  have hother : ∀ g ∈ seats e, d ≠ e → f ≠ g := by
    rintro g hg hde rfl
    exact hseats.disjoint hd he hde f hf hg
  unfold diskServiceStep startWrite
  cases hservice : (s.disks e).service with
  | none => rfl
  | some pc =>
      rw [hservice] at hpc
      have hnot : ∀ {pc'}, pc = pc' → (∀ g, pc' ≠ .count g) → d = e →
          (s.disks d).service ≠ some (.count f) := by
        rintro pc' rfl hcount rfl hsome
        exact hcount f (Option.some.inj (hservice.symm.trans hsome))
      cases pc with
      | start =>
          dsimp only
          split_ifs
          · exact progress_setPc rfl (fun _ => rfl) (hnot rfl nofun) nofun
          · refine progress_setPc (by simp) (fun hde => ?_) (hnot rfl nofun) nofun
            rw [State.modifyDisk_disks, if_neg hde]
          · exact progress_setPc rfl (fun _ => rfl) (hnot rfl nofun) nofun
      | walk file =>
          cases file with
          | none => exact progress_setPc rfl (fun _ => rfl) (hnot rfl nofun) nofun
          | some g =>
              have hhead : rest.head? = some g := hpc.symm
              have hgrest : g ∈ rest := List.mem_of_mem_head? hhead
              have hg : g ∈ seats e := hsplit ▸ List.mem_append_right done hgrest
              dsimp only
              split_ifs
              · exact progress_setPc rfl (fun _ => rfl) (hnot rfl nofun) nofun
              · exact progress_setPc rfl (fun _ => rfl) (hnot rfl nofun) nofun
              · by_cases hgf : g = f
                · -- the file is written now
                  obtain rfl : d = e := by
                    by_contra hde
                    exact hother g hg hde hgf.symm
                  subst hgf
                  have hzero : s.counters.fileWrite g = 0 := hs.untouched g hgrest
                  unfold progress
                  rw [setPc_views.2.2.1, setPc_service, if_pos rfl, if_pos rfl, hservice]
                  simp
                · refine (progress_setPc rfl (fun _ => rfl) (hnot rfl nofun) fun _ hcount => ?_).trans ?_
                  · injection hcount with hcount
                    exact hgf hcount
                  · simp [hgf]
      | count g =>
          obtain ⟨hhead, -⟩ := hpc
          have hgrest : g ∈ rest := List.mem_of_mem_head? hhead
          have hg : g ∈ seats e := hsplit ▸ List.mem_append_right done hgrest
          have hcounters := serviceSection_counters (s := s) (f := g) (d := e)
          by_cases hgf : g = f
          · -- the file is counted now
            obtain rfl : d = e := by
              by_contra hde
              exact hother g hg hde hgf.symm
            subst hgf
            have hwrite : (serviceSection s g d).counters.fileWrite g = 1 := by
              rw [hcounters]
              show Function.update s.counters.fileWrite g (add64 (s.counters.fileWrite g) 1) g = 1
              rw [Function.update_self, hs.untouched g hgrest]
              rfl
            unfold progress
            rw [setPc_views.2.2.1, setPc_service, if_pos rfl, hwrite, hs.untouched g hgrest, hservice]
            simp
          · have hthreads := (serviceSection_views (s := s) (f := g) (d := e)).2.2.2.2.2.2
            refine progress_setPc ?_ (fun _ => congrFun (congrArg Threads.pc hthreads) d) ?_ nofun
            · rw [hcounters]
              exact Function.update_of_ne (Ne.symm hgf) _ _
            · rintro rfl hsome
              injection Option.some.inj (hservice.symm.trans hsome) with hsame
              exact hgf hsame
      | leave => exact progress_setPc rfl (fun _ => rfl) (hnot rfl nofun) nofun
      | ready => rfl
      | failed => rfl

end Steps

/-! ## The whole wait -/

section Wait

variable {seats : DiskPtr → List FilePtr} {s₀ s u : State} {events : List WaitEvent}

/-- **Every file is written once** in a wait that ends well. -/
theorem Serving.write_once (hb : s₀.roster.Built)
    (hseats : Seated s₀.diskHead s₀.fileHead s₀.placement seats) (h : Serving seats s₀ s)
    (hrun : waitServices events s = .ok u) {d : DiskPtr} (hd : d ∈ s₀.diskHead) {f : FilePtr}
    (hf : f ∈ seats d) :
    progress s d f + ((startWrites events s).countP fun w => w.file = f) = 1 := by
  induction events generalizing s with
  | nil => exact nomatch hrun
  | cons event events ih =>
      have hdisks : s.diskHead = s₀.diskHead := congrArg Roster.diskHead h.roster
      have hbs : s.roster.Built := h.roster ▸ hb
      have hd' : d ∈ s.diskHead := hdisks ▸ hd
      cases event with
      | service e io =>
          have hstep := h.progress_step (h.seated hseats) hd' hf e io
          have hrest := ih (h.step (h.seated hseats) hbs.diskHead_nodup e io) hrun
          unfold startWrites
          rw [List.countP_append, ← Nat.add_assoc, ← hstep]
          exact hrest
      | poll brk =>
          unfold waitServices at hrun
          unfold startWrites
          split_ifs at hrun with hbrk herror hready
          · obtain rfl := Except.ok.inj hrun
            rw [if_pos (Or.inr (Or.inr hready))]
            have hcounted := h.all_counted hbs (Nat.eq_zero_of_not_pos herror) hready hd' hf
            unfold progress
            rw [hcounted.1, h.all_ready hbs hready hd']
            rfl
          · rw [if_neg (by simp [hbrk, herror, hready])]
            exact ih h hrun

/-- The writes go where the files belong. -/
theorem Serving.writes_home (hb : s₀.roster.Built)
    (hseats : Seated s₀.diskHead s₀.fileHead s₀.placement seats) (h : Serving seats s₀ s)
    {w : StartWrite} (hw : w ∈ startWrites events s) :
    ∃ d ∈ s₀.diskHead, w.file ∈ seats d ∧ w.dir = s₀.roster.dir d ∧
      w.name = s₀.roster.filename w.file := by
  induction events generalizing s with
  | nil => exact nomatch hw
  | cons event events ih =>
      have hdisks : s.diskHead = s₀.diskHead := congrArg Roster.diskHead h.roster
      have hbs : s.roster.Built := h.roster ▸ hb
      cases event with
      | service e io =>
          unfold startWrites at hw
          rcases List.mem_append.mp hw with hw | hw
          · rw [Option.mem_toList] at hw
            by_cases he : e ∈ s.diskHead
            case neg =>
              unfold startWrite at hw
              rw [h.idle e he] at hw
              exact nomatch hw
            obtain ⟨done, rest, hsplit, hs⟩ := h.served e he
            have hpc := hs.pc
            unfold startWrite at hw
            split at hw
            · rename_i g hservice
              rw [hservice] at hpc
              have hhead : rest.head? = some g := Eq.symm hpc
              dsimp only at hw
              split_ifs at hw
              obtain rfl := Option.some.inj hw
              refine ⟨e, hdisks ▸ he, ?_, ?_, ?_⟩
              · rw [hsplit]
                exact List.mem_append_right _ (List.mem_of_mem_head? hhead)
              · rw [← h.roster]
                rfl
              · rw [← h.roster]
                rfl
            · exact nomatch hw
          · exact ih (h.step (h.seated hseats) hbs.diskHead_nodup e io) hw
      | poll brk =>
          unfold startWrites at hw
          split_ifs at hw
          · exact nomatch hw
          · exact ih h hw

end Wait

/-- No break is requested while the load waits. -/
def NoBreak : WaitEvent → Prop
  | .service _ io => ∀ k, (io.rounds k).brk = false
  | .poll brk => brk = false

theorem startWrites_noBreak {events : List WaitEvent} (h : ∀ event ∈ events, NoBreak event) {s : State}
    {w : StartWrite} (hw : w ∈ startWrites events s) : ∀ k, (w.rounds k).brk = false := by
  induction events generalizing s with
  | nil => exact nomatch hw
  | cons event events ih =>
      have hrest : ∀ event ∈ events, NoBreak event := fun e he => h e (List.mem_cons_of_mem _ he)
      cases event with
      | service e io =>
          unfold startWrites at hw
          rcases List.mem_append.mp hw with hw | hw
          · rw [Option.mem_toList] at hw
            unfold startWrite at hw
            split at hw
            · dsimp only at hw
              split_ifs at hw
              obtain rfl := Option.some.inj hw
              exact h _ List.mem_cons_self
            · exact nomatch hw
          · exact ih hrest hw
      | poll brk =>
          unfold startWrites at hw
          split_ifs at hw
          · exact nomatch hw
          · exact ih hrest hw

/-- Every file has been written in full to the disk it is assigned to. -/
def WrittenInFull (writes : List StartWrite) (s : State) : Prop :=
  ∀ f ∈ s.fileHead, ∃ d, (s.files f).assignDisk = some d ∧
    (acceptedBytes s.cfg.filesize writes (s.dir d) (s.files f).filename : Int) = s.cfg.filesize

/-- A wait that is not broken off fails with an error reported. -/
theorem waitServices_error {events : List WaitEvent} (h : ∀ event ∈ events, NoBreak event) {s u : State}
    {code : Int} (hrun : waitServices events s = .error (.returned code u)) :
    code = -1 ∧ 0 < u.diskErrorCount := by
  induction events generalizing s with
  | nil => exact nomatch hrun
  | cons event events ih =>
      have hrest : ∀ event ∈ events, NoBreak event := fun e he => h e (List.mem_cons_of_mem _ he)
      cases event with
      | service e io => exact ih hrest hrun
      | poll brk =>
          have hbrk : brk = false := h _ List.mem_cons_self
          unfold waitServices at hrun
          rw [hbrk, if_neg Bool.false_ne_true] at hrun
          split_ifs at hrun with herror hready
          · injection hrun with hrun
            injection hrun with hcode hstate
            exact ⟨hcode.symm, hstate ▸ herror⟩
          · exact ih hrest hrun

/-- At the start of the services nothing is written. -/
theorem Started.progress_zero {s₀ s : State} (h : Started s₀ s) (h₀ : Prepared s₀) (hf : f ∈ s.fileHead)
    (d : DiskPtr) : progress s d f = 0 := by
  obtain ⟨next, hroster, -⟩ := h.roster
  have hfiles : s.fileHead = s₀.fileHead := congrArg Roster.fileHead hroster
  obtain ⟨i, hfresh⟩ := h₀.file (hfiles ▸ hf)
  have hwrite : s.counters.fileWrite f = 0 := by
    rw [h.counters]
    exact hfresh.writeCount
  unfold progress
  rw [hwrite]
  rcases h.service d with hpc | ⟨-, hpc⟩ <;> rw [hpc] <;> rfl

/-- **Behind a successful load** each file has its one write, and it is the only one into its path. -/
theorem written_once {env : LoadEnv} {doc : Document} {s₀ s u : State} (hidle : Idle s₀)
    (hassigned : loadAssigned env doc s₀ = .ok s) (hload : parseConfig env doc s₀ = .ok u) :
    (∀ f ∈ u.fileHead, ∃ d, (u.files f).assignDisk = some d ∧ ∃ w ∈ startWrites env.events s,
      (∀ w' ∈ startWrites env.events s, w'.file = f → w' = w) ∧
      ((startWrites env.events s).filter fun w => w.dir = u.dir d ∧ w.name = (u.files f).filename) = [w]) ∧
    ∀ w ∈ startWrites env.events s, w.file ∈ u.fileHead := by
  have hwait : waitServices env.events s = .ok u := by
    unfold parseConfig at hload
    rw [hassigned] at hload
    exact hload
  unfold loadAssigned at hassigned
  obtain ⟨s₁, hobjects, hassigned⟩ := load_bind_ok.mp hassigned
  obtain ⟨s₂, hassign, hstart⟩ := load_bind_ok.mp hassigned
  obtain ⟨h₁, -⟩ := loadObjects_ok hidle hobjects
  have hstarted := startServices_ok h₁ hassign
  rw [Except.ok.inj hstart] at hstarted
  obtain ⟨seats, hseats⟩ := hstarted.seated
  have hb := hstarted.built h₁
  have hserving := hstarted.serving h₁ hseats
  obtain ⟨hend, -, -⟩ := waitServices_ok hb hseats hserving hwait
  have hfiles : u.fileHead = s.fileHead := congrArg Roster.fileHead hend.roster
  have hhome : ∀ f, (u.files f).assignDisk = s.placement.home f := fun f =>
    congrFun (congrArg Placement.home hend.placement) f
  have hpath : ∀ d, u.dir d = s.roster.dir d := fun d =>
    congrFun (congrArg Roster.dir hend.roster) d
  have hname : ∀ f, (u.files f).filename = s.roster.filename f := fun f =>
    congrFun (congrArg Roster.filename hend.roster) f
  have hwrites : ∀ w ∈ startWrites env.events s, ∃ d ∈ s.diskHead, w.file ∈ seats d ∧
      w.dir = s.roster.dir d ∧ w.name = s.roster.filename w.file := fun w hw =>
    hserving.writes_home hb hseats hw
  refine ⟨fun f hf => ?_, fun w hw => ?_⟩
  · rw [hfiles] at hf
    obtain ⟨d, hd⟩ := Option.isSome_iff_exists.mp (hstarted.home f hf)
    have hdisk : d ∈ s.diskHead := hseats.target f hf d hd
    have hmem : f ∈ seats d := (hseats.home d hdisk f hf).mpr hd
    have honce := hserving.write_once hb hseats hwait hdisk hmem
    rw [hstarted.progress_zero h₁ hf d, Nat.zero_add, List.countP_eq_length_filter] at honce
    obtain ⟨w, hw⟩ := List.length_eq_one_iff.mp honce
    -- the path belongs to this file alone
    have hfilter : (startWrites env.events s).filter
        (fun w => decide (w.dir = u.dir d ∧ w.name = (u.files f).filename)) = [w] := by
      rw [← hw]
      refine List.filter_congr fun w' hw' => ?_
      obtain ⟨d', hd', hmem', hdir', hname'⟩ := hwrites w' hw'
      rw [hpath, hname, hdir', hname']
      refine decide_eq_decide.mpr ⟨fun h => ?_, ?_⟩
      · exact hb.filename_inj (hseats.inside d' hd' hmem') hf h.2
      · rintro rfl
        have hsame : d' = d := by
          by_contra hne
          exact hseats.disjoint hd' hdisk hne _ hmem' hmem
        exact ⟨by rw [hsame], rfl⟩
    have hwmem : w ∈ (startWrites env.events s).filter fun w => w.file = f := hw ▸ List.mem_singleton_self w
    refine ⟨d, (hhome f).trans hd, w, (List.mem_filter.mp hwmem).1, fun w' hw' hfile => ?_, hfilter⟩
    have hw'mem : w' ∈ (startWrites env.events s).filter fun w => w.file = f :=
      List.mem_filter.mpr ⟨hw', decide_eq_true hfile⟩
    rw [hw] at hw'mem
    exact List.mem_singleton.mp hw'mem
  · obtain ⟨d, hd, hmem, -, -⟩ := hwrites w hw
    exact hfiles ▸ hseats.inside d hd hmem

/-- The bytes accepted into a path with one write. -/
theorem acceptedBytes_eq {writes : List StartWrite} {dir name : Text} {w : StartWrite}
    (h : (writes.filter fun w => w.dir = dir ∧ w.name = name) = [w]) (filesize : Int) :
    acceptedBytes filesize writes dir name = (w.bytes filesize).length := by
  unfold acceptedBytes
  rw [h]
  exact List.sum_singleton

/-- **A load that succeeds wrote every file in full**, exactly when no write of its start-up transferred nothing
    or failed before its file was full; the bytes accepted are those in the file. A load that fails at the
    services has an error reported. -/
theorem start_writes_full {env : LoadEnv} {doc : Document} {s₀ s : State} (hidle : Idle s₀)
    (hassigned : loadAssigned env doc s₀ = .ok s) (hbrk : ∀ event ∈ env.events, NoBreak event) :
    (∀ u, parseConfig env doc s₀ = .ok u →
      (WrittenInFull (startWrites env.events s) u ↔
        ∀ w ∈ startWrites env.events s, FillsUp w.rounds 0 u.cfg.filesize.toNat)) ∧
    (∀ u, parseConfig env doc s₀ = .ok u → ∀ f ∈ u.fileHead, ∃ d contents, (u.files f).assignDisk = some d ∧
      u.fs (u.dir d) (u.files f).filename = some contents ∧ contents.length =
        acceptedBytes u.cfg.filesize (startWrites env.events s) (u.dir d) (u.files f).filename) ∧
    ∀ code u, parseConfig env doc s₀ = .error (.returned code u) → code = -1 ∧ 0 < u.diskErrorCount := by
  have hparse : parseConfig env doc s₀ = waitServices env.events s := by
    unfold parseConfig
    rw [hassigned]
    rfl
  refine ⟨fun u hload => ?_, fun u hload f hf => ?_,
    fun code u hload => waitServices_error hbrk (hparse.symm.trans hload)⟩
  case refine_2 =>
    obtain ⟨d, hd, w, -, -, hfilter⟩ := (written_once hidle hassigned hload).1 f hf
    have hwait : waitServices env.events s = .ok u := hparse.symm.trans hload
    refine ⟨d, w.bytes u.cfg.filesize, hd, ?_, (acceptedBytes_eq hfilter _).symm⟩
    rw [startWrites_fs hwait, hfilter, waitServices_cfg hwait]
    rfl
  obtain ⟨honce, hinside⟩ := written_once hidle hassigned hload
  have hsize : 0 ≤ u.cfg.filesize := by
    obtain ⟨db, filecount, hcfg⟩ := parseConfig_cfg hidle hload
    rw [hcfg]
    exact Int.le_max_right _ _
  have hfull : ∀ w ∈ startWrites env.events s,
      ((w.bytes u.cfg.filesize).length : Int) = u.cfg.filesize ↔ FillsUp w.rounds 0 u.cfg.filesize.toNat := by
    intro w hw
    rw [← @fillLoop_full w.rounds (startWrites_noBreak hbrk hw) _ 0 _ [] (Nat.le_refl _), List.length_nil,
      Nat.zero_add]
    change ((w.bytes u.cfg.filesize).length : Int) = u.cfg.filesize ↔
      (w.bytes u.cfg.filesize).length = u.cfg.filesize.toNat
    omega
  constructor
  · intro hall w hw
    obtain ⟨d, hd, w₁, hw₁, hunique, hfilter⟩ := honce w.file (hinside w hw)
    obtain ⟨d', hd', haccepted⟩ := hall w.file (hinside w hw)
    obtain rfl : d = d' := Option.some.inj (hd.symm.trans hd')
    rw [acceptedBytes_eq hfilter, ← hunique w hw rfl] at haccepted
    exact (hfull w hw).mp haccepted
  · intro hall f hf
    obtain ⟨d, hd, w, hw, -, hfilter⟩ := honce f hf
    refine ⟨d, hd, ?_⟩
    rw [acceptedBytes_eq hfilter]
    exact (hfull w hw).mpr (hall w hw)

/-- The state in which the services of the small configuration start. -/
@[irreducible] def smallAssigned : State :=
  (loadAssigned (smallEnv [] small_fits none) ⟨smallDocument [], small_fits⟩ smallStart).state

theorem small_assigns : loadAssigned (smallEnv [] small_fits none) ⟨smallDocument [], small_fits⟩ smallStart =
    .ok smallAssigned := by
  unfold smallAssigned
  exact load_eq_of_isOk (by decide +kernel)

/-- The start-up of the small configuration. -/
theorem start_writes_full_small :
    (∀ u, parseConfig (smallEnv [] small_fits none) ⟨smallDocument [], small_fits⟩ smallStart = .ok u →
      (WrittenInFull (startWrites (smallEnv [] small_fits none).events smallAssigned) u ↔
        ∀ w ∈ startWrites (smallEnv [] small_fits none).events smallAssigned,
          FillsUp w.rounds 0 u.cfg.filesize.toNat)) ∧
    (∀ u, parseConfig (smallEnv [] small_fits none) ⟨smallDocument [], small_fits⟩ smallStart = .ok u →
      ∀ f ∈ u.fileHead, ∃ d contents, (u.files f).assignDisk = some d ∧
        u.fs (u.dir d) (u.files f).filename = some contents ∧ contents.length =
          acceptedBytes u.cfg.filesize (startWrites (smallEnv [] small_fits none).events smallAssigned) (u.dir d)
            (u.files f).filename) ∧
    ∀ code u, parseConfig (smallEnv [] small_fits none) ⟨smallDocument [], small_fits⟩ smallStart =
      .error (.returned code u) → code = -1 ∧ 0 < u.diskErrorCount := by
  refine start_writes_full (idle_init _ _ _ _) small_assigns fun event hevent => ?_
  simp only [smallEnv, List.mem_append, List.mem_replicate, List.mem_singleton] at hevent
  rcases hevent with (⟨-, rfl⟩ | ⟨-, rfl⟩) | rfl
  · exact fun k => rfl
  · exact fun k => rfl
  · rfl

/-- The services of the small configuration on full disks: the files are created, no byte fits. -/
def fullDiskEnv : LoadEnv :=
  let full : ServiceIo := { smallService with rounds := fun _ => { smallRound with write := none } }
  { smallEnv [] small_fits none with
    events := List.replicate 6 (.service 0 full) ++ List.replicate 6 (.service 1 full) ++ [.poll false] }

/-- The state in which they start. -/
@[irreducible] def fullDiskAssigned : State :=
  (loadAssigned fullDiskEnv ⟨smallDocument [], small_fits⟩ smallStart).state

/-- **A load onto full disks succeeds**, without an error, and no byte is written. -/
theorem start_writes_nothing :
    loadAssigned fullDiskEnv ⟨smallDocument [], small_fits⟩ smallStart = .ok fullDiskAssigned ∧
    (∀ event ∈ fullDiskEnv.events, NoBreak event) ∧
    ∃ u, parseConfig fullDiskEnv ⟨smallDocument [], small_fits⟩ smallStart = .ok u ∧
      u.diskErrorCount = 0 ∧ ¬ WrittenInFull (startWrites fullDiskEnv.events fullDiskAssigned) u := by
  have hassigned : loadAssigned fullDiskEnv ⟨smallDocument [], small_fits⟩ smallStart =
      .ok fullDiskAssigned := by
    unfold fullDiskAssigned
    exact load_eq_of_isOk (by decide +kernel)
  have hok : (parseConfig fullDiskEnv ⟨smallDocument [], small_fits⟩ smallStart).isOk = true := by
    decide +kernel
  have hempty : ∀ w ∈ startWrites fullDiskEnv.events fullDiskAssigned,
      (w.rounds 0).write.isNone = true := by
    unfold fullDiskAssigned
    decide +kernel
  have hnone : ∀ dir name, acceptedBytes 1 (startWrites fullDiskEnv.events fullDiskAssigned) dir name = 0 := by
    intro dir name
    refine List.sum_eq_zero fun n hn => ?_
    obtain ⟨w, hw, rfl⟩ := List.mem_map.mp hn
    have hwrite := Option.isNone_iff_eq_none.mp (hempty w (List.mem_filter.mp hw).1)
    unfold StartWrite.bytes
    rw [show (1 : Int).toNat = 1 from rfl]
    unfold fillLoop
    rw [hwrite]
    split_ifs <;> rfl
  refine ⟨hassigned, fun event hevent => ?_, _, load_eq_of_isOk hok, by decide +kernel, fun hfull => ?_⟩
  · simp only [fullDiskEnv, List.mem_append, List.mem_replicate, List.mem_singleton] at hevent
    rcases hevent with (⟨-, rfl⟩ | ⟨-, rfl⟩) | rfl
    · exact fun k => rfl
    · exact fun k => rfl
    · rfl
  · generalize hu : (parseConfig fullDiskEnv ⟨smallDocument [], small_fits⟩ smallStart).state = u at hfull
    have hsize : u.cfg.filesize = 1 := hu ▸ by decide +kernel
    have hfiles : u.fileHead = [0, 1] := hu ▸ by decide +kernel
    obtain ⟨d, -, haccepted⟩ := hfull 0 (hfiles ▸ List.mem_cons_self)
    rw [hsize, hnone] at haccepted
    exact absurd haccepted (by decide)

end Workload
