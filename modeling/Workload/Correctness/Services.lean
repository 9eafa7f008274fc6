import Workload.Correctness.Assigning
import Workload.Correctness.Counting
import Workload.Model.System

/-!
# `Correctness.Services` — the start-up writing counts every file once

The services of all disks run at the same time, each along the list of its disk, one step at a time in any
order. `Served` describes one of them: `done` is written and counted, `rest` is not. `Serving` collects all
of them; `Serving.step` is its step lemma. A load waits until as many services are ready as there are disks,
with no error reported, and then every file is done (`waitServices_ok`).
-/

namespace Workload

open Intrusive

/-! ## One service -/

/-- The file exists in the directory of the disk. -/
def There (s : State) (d : DiskPtr) (f : FilePtr) : Prop :=
  s.fs (s.dir d) (s.files f).filename ≠ none

/-- Where the thread of a disk stands that has `done` behind it and `rest` before it. -/
def PcAt (there : FilePtr → Prop) (done rest : List FilePtr) (error : Nat) : Option ServicePc → Prop
  | none => done = []
  | some .start => done = []
  | some (.walk file) => file = rest.head?
  | some (.count f) => rest.head? = some f ∧ there f
  | some .leave => rest = [] ∨ 0 < error
  | some .ready => rest = [] ∨ 0 < error
  | some .failed => 0 < error

/-- The service of `d` has written and counted `done`, and nothing of `rest`. -/
structure Served (s : State) (d : DiskPtr) (done rest : List FilePtr) : Prop where
  counted : ∀ f ∈ done, s.counters.fileWrite f = 1 ∧ There s d f
  untouched : ∀ f ∈ rest, s.counters.fileWrite f = 0
  pc : PcAt (There s d) done rest s.diskErrorCount (s.disks d).service

theorem PcAt.mono {there there' : FilePtr → Prop} {done rest : List FilePtr} {error error' : Nat}
    {pc : Option ServicePc} (h : PcAt there done rest error pc)
    (hthere : ∀ f, there f → there' f) (herror : error ≤ error') :
    PcAt there' done rest error' pc := by
  cases pc with
  | none => exact h
  | some pc =>
      cases pc with
      | start => exact h
      | walk file => exact h
      | count f => exact ⟨h.1, hthere f h.2⟩
      | leave => exact h.imp_right fun he => he.trans_le herror
      | ready => exact h.imp_right fun he => he.trans_le herror
      | failed => exact Nat.lt_of_lt_of_le h herror

/-- What the others do does not disturb a service. -/
theorem Served.mono {s s' : State} {d : DiskPtr} {done rest : List FilePtr} (h : Served s d done rest)
    (hwrite : ∀ f ∈ done ++ rest, s'.counters.fileWrite f = s.counters.fileWrite f)
    (hthere : ∀ f, There s d f → There s' d f) (herror : s.diskErrorCount ≤ s'.diskErrorCount)
    (hpc : (s'.disks d).service = (s.disks d).service) : Served s' d done rest where
  counted f hf := ⟨(hwrite f (List.mem_append_left _ hf)).trans (h.counted f hf).1,
    hthere f (h.counted f hf).2⟩
  untouched f hf := (hwrite f (List.mem_append_right _ hf)).trans (h.untouched f hf)
  pc := hpc ▸ h.pc.mono hthere herror

/-! ## All services -/

/-- **Invariant of the start-up**, from the state `s₀` the services were started in. -/
structure Serving (seats : DiskPtr → List FilePtr) (s₀ s : State) : Prop where
  roster : s.roster = s₀.roster
  placement : s.placement = s₀.placement
  board : s.board = s₀.board
  plan : s.plan = s₀.plan
  sampled : s.sampled = s₀.sampled
  created : s.contents.created = s₀.contents.created
  read : s.counters.fileRead = s₀.counters.fileRead
  served : ∀ d ∈ s.diskHead, ∃ done rest, seats d = done ++ rest ∧ Served s d done rest
  idle : ∀ d ∉ s.diskHead, (s.disks d).service = none
  ready : s.diskReadyCount = s.diskHead.countP fun d => (s.disks d).service == some .ready
  fs : ∀ dir name, s.fs dir name = s₀.fs dir name ∨
    ∃ d ∈ s.diskHead, ∃ f ∈ seats d, dir = s.roster.dir d ∧ name = s.roster.filename f

/-- At the start nobody is written. -/
theorem Started.serving {s₀ s : State} (h : Started s₀ s) (h₀ : Prepared s₀)
    {seats : DiskPtr → List FilePtr} (hseats : Seated s.diskHead s.fileHead s.placement seats) :
    Serving seats s s := by
  obtain ⟨next, hroster, -⟩ := h.roster
  have hfiles : s.fileHead = s₀.fileHead := congrArg Roster.fileHead hroster
  refine ⟨rfl, rfl, rfl, rfl, rfl, rfl, rfl, ?_, ?_, ?_, fun _ _ => Or.inl rfl⟩
  · intro d hd
    refine ⟨[], seats d, rfl, ?_, ?_, ?_⟩
    · intro f hf
      exact absurd hf List.not_mem_nil
    · intro f hf
      obtain ⟨i, hfresh⟩ := h₀.file (hfiles ▸ hseats.inside d hd hf)
      rw [h.counters]
      exact hfresh.writeCount
    · rcases h.service d with hpc | ⟨-, hpc⟩ <;> rw [hpc] <;> rfl
  · intro d hd
    rcases h.service d with hpc | ⟨hd', -⟩
    · exact hpc
    · exact absurd hd' hd
  · rw [h.ready, eq_comm, List.countP_eq_zero]
    intro d _
    rcases h.service d with hpc | ⟨-, hpc⟩ <;> simp [hpc]

/-- What one step of the service of `d` does to the rest of the state: the counters of the files of other
    disks and the pcs of other disks stay, files may come into being on `d` only. -/
structure ServiceStep (seats : DiskPtr → List FilePtr) (d : DiskPtr) (s s' : State) : Prop where
  created : s'.contents.created = s.contents.created
  read : s'.counters.fileRead = s.counters.fileRead
  write : ∀ f, f ∉ seats d → s'.counters.fileWrite f = s.counters.fileWrite f
  error : s.diskErrorCount ≤ s'.diskErrorCount
  service : ∀ e, e ≠ d → (s'.disks e).service = (s.disks e).service
  ready : (s.disks d).service ≠ some .ready ∧
    (s'.diskReadyCount = s.diskReadyCount ∧ (s'.disks d).service ≠ some .ready ∨
      s'.diskReadyCount = s.diskReadyCount + 1 ∧ (s'.disks d).service = some .ready)
  fs : s'.fs = s.fs ∨ ∃ f ∈ seats d, ∃ out,
    s'.fs = (s.setPath (s.dir d) (s.files f).filename (some out)).fs

/-- Files do not vanish. -/
theorem ServiceStep.there {seats : DiskPtr → List FilePtr} {d e : DiskPtr} {s s' : State} {f : FilePtr}
    (h : ServiceStep seats d s s') (hroster : s'.roster = s.roster) (hf : There s e f) :
    There s' e f := by
  have hname : (s'.files f).filename = (s.files f).filename :=
    congrFun (congrArg Roster.filename hroster) f
  have hpath : s'.dir e = s.dir e := congrFun (congrArg Roster.dir hroster) e
  unfold There at hf ⊢
  rw [hname, hpath]
  obtain hfs | ⟨g, -, out, hfs⟩ := h.fs
  · rw [hfs]
    exact hf
  · rw [hfs, State.setPath_fs]
    split_ifs
    · exact Option.some_ne_none out
    · exact hf

/-- **Step lemma.** A step that advances the service of `d` keeps the invariant. -/
theorem Serving.advance {seats : DiskPtr → List FilePtr} {s₀ s s' : State} {d : DiskPtr}
    (h : Serving seats s₀ s) (hseats : Seated s.diskHead s.fileHead s.placement seats)
    (hnd : s.diskHead.Nodup) (hd : d ∈ s.diskHead)
    (hviews : s'.roster = s.roster ∧ s'.placement = s.placement ∧ s'.board = s.board ∧
      s'.plan = s.plan ∧ s'.sampled = s.sampled)
    (hstep : ServiceStep seats d s s')
    (hserved : ∃ done rest, seats d = done ++ rest ∧ Served s' d done rest) :
    Serving seats s₀ s' := by
  obtain ⟨hroster, hplace, hboard, hplan, hsampled⟩ := hviews
  have hdisks : s'.diskHead = s.diskHead := congrArg Roster.diskHead hroster
  constructor
  · exact hroster.trans h.roster
  · exact hplace.trans h.placement
  · exact hboard.trans h.board
  · exact hplan.trans h.plan
  · exact hsampled.trans h.sampled
  · exact hstep.created.trans h.created
  · exact hstep.read.trans h.read
  · intro e he
    rw [hdisks] at he
    by_cases hed : e = d
    · rw [hed]
      exact hserved
    · obtain ⟨done, rest, hsplit, hes⟩ := h.served e he
      refine ⟨done, rest, hsplit, hes.mono ?_ (fun f => hstep.there hroster) hstep.error
        (hstep.service e hed)⟩
      intro f hf
      rw [← hsplit] at hf
      exact hstep.write f (hseats.disjoint he hd hed f hf)
  · intro e he
    rw [hdisks] at he
    have hed : e ≠ d := fun hed => he (hed ▸ hd)
    rw [hstep.service e hed]
    exact h.idle e he
  · have hother : ∀ e ∈ s.diskHead, e ≠ d →
        ((s'.disks e).service == some .ready) = ((s.disks e).service == some .ready) := by
      intro e _ hed
      rw [hstep.service e hed]
    rw [hdisks]
    obtain ⟨hnot, ⟨hcount, hpc⟩ | ⟨hcount, hpc⟩⟩ := hstep.ready
    · rw [hcount, h.ready]
      refine List.countP_congr fun e he => ?_
      by_cases hed : e = d
      · subst hed
        simp [hnot, hpc]
      · rw [hother e he hed]
    · rw [hcount, h.ready]
      refine (Sums.countP_add_one hnd hd hother ?_ ?_).symm
      · simpa using hnot
      · simp [hpc]
  · intro dir name
    obtain hfs | ⟨f, hf, out, hfs⟩ := hstep.fs
    · rw [hfs, hroster, hdisks]
      exact h.fs dir name
    · rw [hfs, hroster, hdisks, State.setPath_fs]
      split_ifs with hpath
      · exact Or.inr ⟨d, hd, f, hf, hpath⟩
      · exact h.fs dir name

/-! ## The steps of one service -/

section Steps

variable {seats : DiskPtr → List FilePtr} {s₀ s s₁ : State} {d : DiskPtr} {pc : ServicePc}
  {done rest : List FilePtr}

theorem setPc_service (s : State) (d e : DiskPtr) (pc : ServicePc) :
    ((setPc s d pc).disks e).service = if e = d then some pc else (s.disks e).service := by
  unfold setPc
  rw [State.modifyDisk_disks]
  split_ifs <;> rfl

/-- Every step ends in a write of the pc; `s₁` is the state before that write. -/
theorem serviceStep_setPc (hold : (s.disks d).service ≠ some .ready)
    (hcreated : s₁.contents.created = s.contents.created)
    (hread : s₁.counters.fileRead = s.counters.fileRead)
    (hwrite : ∀ f, f ∉ seats d → s₁.counters.fileWrite f = s.counters.fileWrite f)
    (herror : s.diskErrorCount ≤ s₁.diskErrorCount)
    (hservice : ∀ e, e ≠ d → (s₁.disks e).service = (s.disks e).service)
    (hready : s₁.diskReadyCount = s.diskReadyCount ∧ pc ≠ .ready ∨
      s₁.diskReadyCount = s.diskReadyCount + 1 ∧ pc = .ready)
    (hfs : s₁.fs = s.fs ∨ ∃ f ∈ seats d, ∃ out,
      s₁.fs = (s.setPath (s.dir d) (s.files f).filename (some out)).fs) :
    ServiceStep seats d s (setPc s₁ d pc) where
  created := by rw [setPc_views.2.2.2.2.2.1, hcreated]
  read := by rw [setPc_views.2.2.1, hread]
  write f hf := by rw [setPc_views.2.2.1, hwrite f hf]
  error := herror
  service e he := by rw [setPc_service, if_neg he, hservice e he]
  ready := by
    refine ⟨hold, ?_⟩
    rw [setPc_service, if_pos rfl]
    exact hready.imp (fun h => ⟨h.1, fun hpc => h.2 (Option.some.inj hpc)⟩)
      fun h => ⟨h.1, congrArg some h.2⟩
  fs := hfs

/-- The pc is the last thing written, so it is all that is left to check. -/
theorem served_setPc (hcounted : ∀ f ∈ done, s₁.counters.fileWrite f = 1 ∧ There s₁ d f)
    (huntouched : ∀ f ∈ rest, s₁.counters.fileWrite f = 0)
    (hpc : PcAt (There s₁ d) done rest s₁.diskErrorCount (some pc)) :
    Served (setPc s₁ d pc) d done rest := by
  have hthere : ∀ f, There (setPc s₁ d pc) d f ↔ There s₁ d f := by
    intro f
    have hpath : (setPc s₁ d pc).dir d = s₁.dir d :=
      congrFun (congrArg Roster.dir (@setPc_views s₁ d pc).1) d
    unfold There
    rw [hpath]
    rfl
  constructor
  · intro f hf
    rw [setPc_views.2.2.1, hthere]
    exact hcounted f hf
  · intro f hf
    rw [setPc_views.2.2.1]
    exact huntouched f hf
  · rw [setPc_service, if_pos rfl]
    exact hpc.mono (fun f hf => (hthere f).mpr hf) (Nat.le_refl _)

/-- The service reports an error and gives up. -/
theorem Serving.fail (h : Serving seats s₀ s) (hseats : Seated s.diskHead s.fileHead s.placement seats)
    (hnd : s.diskHead.Nodup) (hd : d ∈ s.diskHead) (hsplit : seats d = done ++ rest)
    (hs : Served s d done rest) (hold : (s.disks d).service ≠ some .ready)
    (hpc : pc = .leave ∨ pc = .failed) :
    Serving seats s₀ (setPc (s.setServiceCounts s.diskReadyCount (s.diskErrorCount + 1)) d pc) := by
  have hstep : ServiceStep seats d s
      (setPc (s.setServiceCounts s.diskReadyCount (s.diskErrorCount + 1)) d pc) := by
    refine serviceStep_setPc hold rfl rfl (fun _ _ => rfl) (Nat.le_succ _) (fun _ _ => rfl)
      (Or.inl ⟨rfl, ?_⟩) (Or.inl rfl)
    rintro rfl
    rcases hpc with hpc | hpc <;> exact nomatch hpc
  refine h.advance hseats hnd hd ⟨by simp, by simp, by simp, by simp, by simp⟩ hstep
    ⟨done, rest, hsplit, served_setPc hs.counted hs.untouched ?_⟩
  rcases hpc with rfl | rfl
  · exact Or.inr (Nat.succ_pos _)
  · exact Nat.succ_pos _

/-- The service goes on without counting a file. -/
theorem Serving.goOn (h : Serving seats s₀ s) (hseats : Seated s.diskHead s.fileHead s.placement seats)
    (hnd : s.diskHead.Nodup) (hd : d ∈ s.diskHead) (hsplit : seats d = done ++ rest)
    (hs : Served s d done rest) (hold : (s.disks d).service ≠ some .ready)
    (hroster : s₁.roster = s.roster) (hplace : s₁.placement = s.placement)
    (hboard : s₁.board = s.board) (hplan : s₁.plan = s.plan) (hsampled : s₁.sampled = s.sampled)
    (hcreated : s₁.contents.created = s.contents.created) (hcounters : s₁.counters = s.counters)
    (hservice : ∀ e, (s₁.disks e).service = (s.disks e).service)
    (herror : s₁.diskErrorCount = s.diskErrorCount)
    (hready : s₁.diskReadyCount = s.diskReadyCount ∧ pc ≠ .ready ∨
      s₁.diskReadyCount = s.diskReadyCount + 1 ∧ pc = .ready)
    (hfs : s₁.fs = s.fs ∨ ∃ f ∈ seats d, ∃ out,
      s₁.fs = (s.setPath (s.dir d) (s.files f).filename (some out)).fs)
    (hpc : PcAt (There s₁ d) done rest s.diskErrorCount (some pc)) :
    Serving seats s₀ (setPc s₁ d pc) := by
  have hstep : ServiceStep seats d s (setPc s₁ d pc) :=
    serviceStep_setPc hold hcreated (by rw [hcounters]) (fun f _ => by rw [hcounters]) herror.ge
      (fun e _ => hservice e) hready hfs
  have hroster' : (setPc s₁ d pc).roster = s.roster := setPc_views.1.trans hroster
  have hthere : ∀ f, There s d f → There s₁ d f := by
    intro f hf
    have hf := hstep.there hroster' hf
    have hpath : (setPc s₁ d pc).dir d = s₁.dir d :=
      congrFun (congrArg Roster.dir (@setPc_views s₁ d pc).1) d
    unfold There at hf ⊢
    rw [hpath] at hf
    exact hf
  refine h.advance hseats hnd hd
    ⟨hroster', by simp [hplace], by simp [hboard], by simp [hplan], by simp [hsampled]⟩ hstep
    ⟨done, rest, hsplit, served_setPc ?_ ?_ ?_⟩
  · intro f hf
    rw [hcounters]
    exact ⟨(hs.counted f hf).1, hthere f (hs.counted f hf).2⟩
  · intro f hf
    rw [hcounters]
    exact hs.untouched f hf
  · rw [herror]
    exact hpc

/-- The service counts the file it wrote. -/
theorem Serving.count (h : Serving seats s₀ s) (hseats : Seated s.diskHead s.fileHead s.placement seats)
    (hnd : s.diskHead.Nodup) (hd : d ∈ s.diskHead) {f : FilePtr} (hsplit : seats d = done ++ f :: rest)
    (hs : Served s d done (f :: rest)) (hold : (s.disks d).service = some (.count f))
    (hthere : There s d f) :
    Serving seats s₀ (setPc (serviceSection s f d) d (.walk (s.files f).assignNext)) := by
  have hfd : f ∈ seats d := by simp [hsplit]
  have hcounters := serviceSection_counters (s := s) (f := f) (d := d)
  have hwrite : ∀ g, g ≠ f →
      (serviceSection s f d).counters.fileWrite g = s.counters.fileWrite g := by
    intro g hg
    rw [hcounters]
    exact Function.update_of_ne hg _ _
  have hwrite_f : (serviceSection s f d).counters.fileWrite f = 1 := by
    rw [hcounters]
    show Function.update s.counters.fileWrite f (add64 (s.counters.fileWrite f) 1) f = 1
    rw [Function.update_self, hs.untouched f List.mem_cons_self]
    rfl
  have hthreads := (serviceSection_views (s := s) (f := f) (d := d)).2.2.2.2.2.2
  have hfs : (serviceSection s f d).fs = s.fs :=
    congrArg Contents.fs (serviceSection_views (s := s) (f := f) (d := d)).2.2.2.2.1
  have herror : (serviceSection s f d).diskErrorCount = s.diskErrorCount :=
    congrArg Threads.error hthreads
  have hstep : ServiceStep seats d s
      (setPc (serviceSection s f d) d (.walk (s.files f).assignNext)) := by
    refine serviceStep_setPc (by rw [hold]; exact nofun) (by simp) (by rw [hcounters]; rfl) ?_
      herror.ge (fun e _ => congrFun (congrArg Threads.pc hthreads) e)
      (Or.inl ⟨congrArg Threads.ready hthreads, nofun⟩) (Or.inl hfs)
    exact fun g hg => hwrite g fun hgf => hg (hgf ▸ hfd)
  have hthere' : ∀ g, There s d g → There (serviceSection s f d) d g := by
    intro g hg
    have hroster := (serviceSection_views (s := s) (f := f) (d := d)).1
    have hname : ((serviceSection s f d).files g).filename = (s.files g).filename :=
      congrFun (congrArg Roster.filename hroster) g
    have hpath : (serviceSection s f d).dir d = s.dir d :=
      congrFun (congrArg Roster.dir hroster) d
    unfold There
    rw [hname, hpath, hfs]
    exact hg
  have hlist := hseats.list d hd
  have hnodup : (done ++ f :: rest).Nodup := hsplit ▸ hlist.2
  refine h.advance hseats hnd hd ⟨by simp, by simp, by simp, by simp, by simp⟩ hstep
    ⟨done ++ [f], rest, by simp [hsplit], served_setPc ?_ ?_ ?_⟩
  · intro g hg
    rcases List.mem_append.mp hg with hg | hg
    · have hgf : g ≠ f := fun hgf =>
        (List.nodup_append.mp hnodup).2.2 g hg f List.mem_cons_self hgf
      rw [hwrite g hgf]
      exact ⟨(hs.counted g hg).1, hthere' g (hs.counted g hg).2⟩
    · rw [List.mem_singleton.mp hg]
      exact ⟨hwrite_f, hthere' f hthere⟩
  · intro g hg
    have hgf : g ≠ f := by
      rintro rfl
      exact (List.nodup_cons.mp (List.nodup_append.mp hnodup).2.1).1 hg
    rw [hwrite g hgf]
    exact hs.untouched g (List.mem_cons_of_mem f hg)
  · have hseg := hlist.1
    rw [hsplit] at hseg
    exact hseg.next_eq

/-- **Every step of every service keeps the invariant.** -/
theorem Serving.step (h : Serving seats s₀ s) (hseats : Seated s.diskHead s.fileHead s.placement seats)
    (hnd : s.diskHead.Nodup) (d : DiskPtr) (io : ServiceIo) :
    Serving seats s₀ (diskServiceStep s d io) := by
  by_cases hd : d ∈ s.diskHead
  case neg =>
    unfold diskServiceStep
    rw [h.idle d hd]
    exact h
  obtain ⟨done, rest, hsplit, hs⟩ := h.served d hd
  have hpc := hs.pc
  unfold diskServiceStep
  cases hservice : (s.disks d).service with
  | none => exact h
  | some pc =>
      rw [hservice] at hpc
      cases pc with
      | start =>
          have hdone : done = [] := hpc
          have hnot : (s.disks d).service ≠ some .ready := by rw [hservice]; exact nofun
          have hhead : (s.disks d).assignFile = rest.head? := by
            have hseg := (hseats.list d hd).1.head_eq
            rw [hsplit, hdone] at hseg
            exact hseg
          dsimp only
          split_ifs
          · exact h.fail hseats hnd hd hsplit hs hnot (Or.inr rfl)
          · refine h.goOn hseats hnd hd hsplit hs hnot (by simp) (by simp) rfl rfl rfl rfl (by simp)
              ?_ rfl (Or.inl ⟨rfl, nofun⟩) (Or.inl rfl) hhead
            intro e
            rw [State.modifyDisk_disks]
            split_ifs with he
            · rw [he]
            · rfl
          · exact h.goOn hseats hnd hd hsplit hs hnot rfl rfl rfl rfl rfl rfl rfl (fun _ => rfl) rfl
              (Or.inl ⟨rfl, nofun⟩) (Or.inl rfl) hhead
      | walk file =>
          have hnot : (s.disks d).service ≠ some .ready := by rw [hservice]; exact nofun
          cases file with
          | none =>
              have hrest : rest = [] := List.head?_eq_none_iff.mp hpc.symm
              exact h.goOn hseats hnd hd hsplit hs hnot rfl rfl rfl rfl rfl rfl rfl (fun _ => rfl) rfl
                (Or.inl ⟨rfl, nofun⟩) (Or.inl rfl) (Or.inl hrest)
          | some f =>
              have hhead : rest.head? = some f := hpc.symm
              have hfd : f ∈ seats d := by
                rw [hsplit]
                exact List.mem_append_right _ (List.mem_of_mem_head? hhead)
              dsimp only
              split_ifs
              · exact h.fail hseats hnd hd hsplit hs hnot (Or.inl rfl)
              · exact h.fail hseats hnd hd hsplit hs hnot (Or.inl rfl)
              · refine h.goOn hseats hnd hd hsplit hs hnot rfl rfl rfl rfl rfl rfl rfl (fun _ => rfl)
                  rfl (Or.inl ⟨rfl, nofun⟩) (Or.inr ⟨f, hfd, _, rfl⟩) ⟨hhead, ?_⟩
                show State.fs _ (s.dir d) (s.files f).filename ≠ none
                rw [State.setPath_fs, if_pos ⟨rfl, rfl⟩]
                exact Option.some_ne_none _
      | count f =>
          obtain ⟨hhead, hthere⟩ := hpc
          obtain ⟨rest, rfl⟩ := List.head?_eq_some_iff.mp hhead
          exact h.count hseats hnd hd hsplit hs hservice hthere
      | leave =>
          exact h.goOn hseats hnd hd hsplit hs (by rw [hservice]; exact nofun) rfl rfl rfl rfl rfl rfl
            rfl (fun _ => rfl) rfl (Or.inr ⟨rfl, rfl⟩) (Or.inl rfl) hpc
      | ready => exact h
      | failed => exact h

end Steps

/-! ## The wait -/

/-- The lists do not change during the start-up. -/
theorem Serving.seated {seats : DiskPtr → List FilePtr} {s₀ s : State} (h : Serving seats s₀ s)
    (hseats : Seated s₀.diskHead s₀.fileHead s₀.placement seats) :
    Seated s.diskHead s.fileHead s.placement seats := by
  have hdisks : s.diskHead = s₀.diskHead := congrArg Roster.diskHead h.roster
  have hfiles : s.fileHead = s₀.fileHead := congrArg Roster.fileHead h.roster
  rw [hdisks, hfiles, h.placement]
  exact hseats

/-- **The wait** ends with the invariant, as many services ready as there are disks, and no error. -/
theorem waitServices_ok {seats : DiskPtr → List FilePtr} {s₀ s s' : State} {events : List WaitEvent}
    (hb : s₀.roster.Built) (hseats : Seated s₀.diskHead s₀.fileHead s₀.placement seats)
    (h : Serving seats s₀ s) (hrun : waitServices events s = .ok s') :
    Serving seats s₀ s' ∧ s'.diskErrorCount = 0 ∧ s'.diskCount ≤ s'.diskReadyCount := by
  induction events generalizing s with
  | nil => exact nomatch hrun
  | cons event events ih =>
      cases event with
      | service d io =>
          have hbs : s.roster.Built := h.roster ▸ hb
          exact ih (h.step (h.seated hseats) hbs.diskHead_nodup d io) hrun
      | poll brk =>
          unfold waitServices at hrun
          split_ifs at hrun with hbrk herror hready
          · obtain rfl := Except.ok.inj hrun
            exact ⟨h, Nat.eq_zero_of_not_pos herror, hready⟩
          · exact ih h hrun

/-- As many services ready as there are disks are all of them. -/
theorem Serving.all_ready {seats : DiskPtr → List FilePtr} {s₀ s : State} (h : Serving seats s₀ s)
    (hb : s.roster.Built) (hready : s.diskCount ≤ s.diskReadyCount) {d : DiskPtr} (hd : d ∈ s.diskHead) :
    (s.disks d).service = some .ready := by
  have hcount : s.diskCount = s.diskHead.length := hb.diskCount
  have hall := List.countP_eq_length.mp
    (Nat.le_antisymm List.countP_le_length (hcount ▸ h.ready ▸ hready))
  simpa using hall d hd

/-- When everybody is ready without an error, every file of every disk is written and counted once. -/
theorem Serving.all_counted {seats : DiskPtr → List FilePtr} {s₀ s : State} (h : Serving seats s₀ s)
    (hb : s.roster.Built) (herror : s.diskErrorCount = 0) (hready : s.diskCount ≤ s.diskReadyCount)
    {d : DiskPtr} (hd : d ∈ s.diskHead) {f : FilePtr} (hf : f ∈ seats d) :
    s.counters.fileWrite f = 1 ∧ There s d f := by
  have hpc := h.all_ready hb hready hd
  obtain ⟨done, rest, hsplit, hs⟩ := h.served d hd
  have hrest := hs.pc
  rw [hpc, herror] at hrest
  obtain rfl : rest = [] := hrest.resolve_right (Nat.lt_irrefl 0)
  rw [hsplit, List.append_nil] at hf
  exact hs.counted f hf

/-! ## A loaded configuration -/

/-- **The state behind a successful load**: every file has its disk, stands in the array where it stands in
    the list, was counted once, and exists on its disk. -/
structure Loaded (s : State) : Prop where
  built : s.roster.Built
  seated : ∃ seats, Seated s.diskHead s.fileHead s.placement seats
  home : ∀ f ∈ s.fileHead, (s.placement.home f).isSome
  windows : s.nextFileIndex = none ∨
    s.nextFileIndex = some (Tiers.ends 0 (s.diskHead.map s.placement.count))
  sorted : s.fileSorted = s.fileHead
  index : ∀ i f, s.fileHead[i]? = some f → (s.files f).index = i
  plan : ∀ f ∈ s.fileHead, s.plan f = none
  created : ∀ f ∈ s.fileHead, (s.files f).created = false
  readCount : ∀ f ∈ s.fileHead, (s.files f).readCount = 0
  writeCount : ∀ f ∈ s.fileHead, (s.files f).writeCount = 1
  there : ∀ f ∈ s.fileHead, ∀ d, s.placement.home f = some d → There s d f

/-- The load wrote the data files and no other file. -/
def WroteOnlyData (fs : Text → Text → Option Bytes) (s : State) : Prop :=
  ∀ dir name, s.fs dir name = fs dir name ∨
    ∃ f ∈ s.fileHead, ∃ d, s.placement.home f = some d ∧ dir = s.roster.dir d ∧
      name = s.roster.filename f

/-- The stages that ran through. -/
theorem parseConfig_ok {env : LoadEnv} {doc : Document} {s s' : State} (hs : Idle s)
    (h : parseConfig env doc s = .ok s') : Loaded s' ∧ WroteOnlyData s.fs s' := by
  unfold parseConfig loadAssigned at h
  obtain ⟨s₂, h, hwait⟩ := load_bind_ok.mp h
  obtain ⟨s₀, hobjects, h⟩ := load_bind_ok.mp h
  obtain ⟨s₁, hassign, h⟩ := load_bind_ok.mp h
  obtain ⟨h₀, hframe⟩ := loadObjects_ok hs hobjects
  have hstart := startServices_ok h₀ hassign
  rw [Except.ok.inj h] at hstart
  obtain ⟨next, hroster₂, hnext⟩ := hstart.roster
  obtain ⟨seats, hseats₂⟩ := hstart.seated
  have hb₂ := hstart.built h₀
  obtain ⟨hserving, herror, hready⟩ := waitServices_ok hb₂ hseats₂ (hstart.serving h₀ hseats₂) hwait
  have hb : s'.roster.Built := hserving.roster ▸ hb₂
  have hseats := hserving.seated hseats₂
  have hfiles : s'.fileHead = s₂.fileHead := congrArg Roster.fileHead hserving.roster
  have hfiles₂ : s₂.fileHead = s₀.fileHead := congrArg Roster.fileHead hroster₂
  have hdisks : s'.diskHead = s₂.diskHead := congrArg Roster.diskHead hserving.roster
  have hboard : s'.board = s₀.board := hserving.board.trans hstart.board
  have hfile : ∀ f ∈ s'.fileHead, ∃ i, FreshFile s₀.cfg i (s₀.files f) := fun f hf =>
    h₀.file (hfiles₂ ▸ hfiles ▸ hf)
  -- every file is in the list of a disk, so it was counted there
  have hcounted : ∀ f ∈ s'.fileHead, ∀ d, s'.placement.home f = some d →
      s'.counters.fileWrite f = 1 ∧ There s' d f := by
    intro f hf d hhome
    have hd := hseats.target f hf d hhome
    exact hserving.all_counted hb herror hready hd ((hseats.home d hd f hf).mpr hhome)
  have hhome : ∀ f ∈ s'.fileHead, (s'.placement.home f).isSome := by
    intro f hf
    rw [hserving.placement]
    exact hstart.home f (hfiles ▸ hf)
  refine ⟨⟨hb, ⟨seats, hseats⟩, hhome, ?_, ?_, ?_, ?_, ?_, ?_, ?_, ?_⟩, ?_⟩
  · have hindex : s'.nextFileIndex = next := by
      have hroster := hserving.roster.trans hroster₂
      exact congrArg Roster.nextFileIndex hroster
    rw [hindex, hdisks, hserving.placement]
    exact hnext
  · have horder : s'.fileSorted = s₀.fileSorted := congrArg Ranking.Board.order hboard
    rw [horder, h₀.fileSorted, hfiles, hfiles₂]
  · intro i f hif
    have hrank : (s'.files f).index = (s₀.files f).index :=
      congrFun (congrArg Ranking.Board.rank hboard) f
    rw [hrank]
    exact h₀.indexes i f (hfiles₂ ▸ hfiles ▸ hif)
  · intro f hf
    obtain ⟨i, hfresh⟩ := hfile f hf
    rw [hserving.plan, hstart.plan]
    exact hfresh.reassignDisk
  · intro f hf
    obtain ⟨i, hfresh⟩ := hfile f hf
    have hflag : (s'.files f).created = (s₀.files f).created :=
      congrFun (hserving.created.trans (congrArg Contents.created hstart.contents)) f
    rw [hflag]
    exact hfresh.created
  · intro f hf
    obtain ⟨i, hfresh⟩ := hfile f hf
    have hread : (s'.files f).readCount = (s₀.files f).readCount :=
      congrFun (hserving.read.trans (congrArg Counters.fileRead hstart.counters)) f
    rw [hread]
    exact hfresh.readCount
  · intro f hf
    obtain ⟨d, hd⟩ := Option.isSome_iff_exists.mp (hhome f hf)
    exact (hcounted f hf d hd).1
  · intro f hf d hd
    exact (hcounted f hf d hd).2
  · intro dir name
    have hfs₂ : s₂.fs = s.fs := (congrArg Contents.fs hstart.contents).trans hframe.fs
    rcases hserving.fs dir name with hfs | ⟨d, hd, f, hf, hdir, hname⟩
    · exact Or.inl (by rw [hfs, hfs₂])
    · have hfile := hseats.inside d hd hf
      exact Or.inr ⟨f, hfile, d, (hseats.home d hd f hfile).mp hf, hdir, hname⟩

/-- The wait does not touch the configuration. -/
theorem waitServices_cfg {events : List WaitEvent} {s s' : State} (h : waitServices events s = .ok s') :
    s'.cfg = s.cfg := by
  induction events generalizing s with
  | nil => exact nomatch h
  | cons event events ih =>
      cases event with
      | service d io =>
          have hroster : (diskServiceStep s d io).roster = s.roster := diskServiceStep_views.1
          exact (ih h).trans (congrArg Roster.cfg hroster)
      | poll brk =>
          unfold waitServices at h
          split_ifs at h
          · exact congrArg State.cfg (Except.ok.inj h).symm
          · exact ih h

/-- The configuration behind a successful load is what the operation stage made of the options and the
    document, with the number of files defaulted. -/
theorem parseConfig_cfg {env : LoadEnv} {doc : Document} {s₀ s : State} (hidle : Idle s₀)
    (hload : parseConfig env doc s₀ = .ok s) :
    ∃ db filecount, s.cfg =
      { (parseOperation doc (configNode doc ["meta".toList]) (s₀.setDb db)).cfg with
        filecount := filecount } := by
  unfold parseConfig loadAssigned at hload
  obtain ⟨s₂, hload, hwait⟩ := load_bind_ok.mp hload
  obtain ⟨s₁, hobjects, hload⟩ := load_bind_ok.mp hload
  obtain ⟨s₁', hassign, hstart⟩ := load_bind_ok.mp hload
  obtain ⟨hprepared, -⟩ := loadObjects_ok hidle hobjects
  have hstarted := startServices_ok hprepared hassign
  rw [Except.ok.inj hstart] at hstarted
  obtain ⟨next, hroster, -⟩ := hstarted.roster
  have hcfg₂ : s₂.cfg = s₁.cfg := congrArg Roster.cfg hroster
  have hcfg : s.cfg = s₂.cfg := waitServices_cfg hwait
  rw [hcfg, hcfg₂]
  -- the object stages behind the operation only default the number of files
  unfold loadObjects at hobjects
  obtain ⟨t₁, hopen, h⟩ := load_bind_ok.mp hobjects
  obtain ⟨t₂, hdump, h⟩ := load_bind_ok.mp h
  obtain ⟨t₃, hreset, h⟩ := load_bind_ok.mp h
  obtain ⟨t₄, hdisks, hfiles⟩ := load_bind_ok.mp h
  obtain ⟨db₁, rfl⟩ := openMeta_ok hopen
  obtain rfl := (dumpMeta_ok hdump).1
  obtain ⟨db₃, rfl⟩ := resetMeta_ok hreset
  obtain ⟨pause, cfg, hop, hle⟩ := parseOperation_eq doc (configNode doc ["meta".toList])
    ((s₀.setDb db₁).setDb db₃)
  rw [hop] at hdisks
  obtain ⟨-, -, -, -, s₅, disk, diskCount, m, ⟨u, ds, n, l, rfl⟩, rfl⟩ :=
    loadDisks_ok hdisks hidle.diskHead hidle.disk hidle.diskCount hidle.service
  obtain ⟨⟨fc, fs, nf, fh, fo, fso, fe, fcnt, rfl⟩, -⟩ :=
    loadFiles_ok hfiles hidle.fileHead hidle.fileOrdered hidle.fileSorted hidle.fileEven hidle.fileCount hle
  exact ⟨db₃, fc, congrArg (fun s : State => { s.cfg with filecount := fc }) hop.symm⟩

/-! ## The return value -/

/-- The stage does not end the load with `0`. -/
def NeverZero (x : Load) : Prop := ∀ s, x ≠ .error (.returned 0 s)

theorem neverZero_bind {x : Load} {next : State → Load} (hx : NeverZero x)
    (hnext : ∀ s, NeverZero (next s)) : NeverZero (x >>= next) := by
  intro s h
  cases x with
  | error e => exact hx s h
  | ok s₁ => exact hnext s₁ s h

theorem neverZero_ok (s : State) : NeverZero (.ok s) := fun _ h => nomatch h

theorem neverZero_fail (s : State) : NeverZero (.error (.returned (-1) s)) := by
  intro s' h
  have hcode : (-1 : Int) = 0 := by injection h with h; injection h
  exact absurd hcode (by decide)

theorem neverZero_undefined (s : State) : NeverZero (.error (.undefined s)) := fun _ h => by
  injection h with h
  exact nomatch h

theorem neverZero_openMeta (env : LoadEnv) (node : Node) (s : State) :
    NeverZero (openMeta env node s) := by
  unfold openMeta
  dsimp only
  split
  · exact neverZero_ok _
  · split_ifs
    · split
      · exact neverZero_fail _
      · exact neverZero_ok _
    · split
      · exact neverZero_ok _
      · exact neverZero_fail _
    · exact neverZero_ok _

theorem neverZero_resetMeta (s : State) : NeverZero (resetMeta s) := by
  unfold resetMeta
  split
  · exact neverZero_ok _
  · dsimp only
    split_ifs
    · exact neverZero_fail _
    · exact neverZero_ok _
    · exact neverZero_ok _

theorem neverZero_diskLoop (env : LoadEnv) (nodes : List Node) (k id : Nat) (s : State) :
    NeverZero (diskLoop env nodes k id s) := by
  induction nodes generalizing k id s with
  | nil => exact neverZero_ok _
  | cons node nodes ih =>
      unfold diskLoop
      split_ifs
      · exact neverZero_fail _
      · exact ih _ _ _

theorem neverZero_loadDisks (env : LoadEnv) (doc : Document) (s : State) :
    NeverZero (loadDisks env doc s) := by
  refine neverZero_bind (neverZero_diskLoop _ _ _ _ _) fun s₁ => ?_
  dsimp only
  split_ifs
  · exact neverZero_fail _
  · exact neverZero_ok _

theorem neverZero_fileLoop (env : LoadEnv) (n id : Nat) (s : State) :
    NeverZero (fileLoop env n id s) := by
  induction n generalizing id s with
  | zero => exact neverZero_ok _
  | succ n ih =>
      unfold fileLoop
      split_ifs
      · exact neverZero_fail _
      · split
        · exact neverZero_ok _
        · exact ih _ _

theorem neverZero_loadFiles (env : LoadEnv) (s : State) : NeverZero (loadFiles env s) := by
  refine neverZero_bind (neverZero_fileLoop _ _ _ _) fun s₁ => ?_
  dsimp only
  split_ifs
  · exact neverZero_fail _
  · exact neverZero_ok _

theorem neverZero_assignLoop (env : LoadEnv) (n id : Nat) (s : State) :
    NeverZero (assignLoop env n id s) := by
  induction n generalizing id s with
  | zero => exact neverZero_ok _
  | succ n ih =>
      unfold assignLoop
      split_ifs
      · exact neverZero_fail _
      · dsimp only
        split
        · exact neverZero_undefined _
        · split
          · exact neverZero_undefined _
          · split_ifs
            · exact neverZero_fail _
            · exact ih _ _

theorem neverZero_waitServices (events : List WaitEvent) (s : State) :
    NeverZero (waitServices events s) := by
  induction events generalizing s with
  | nil => exact fun _ h => by injection h with h; exact nomatch h
  | cons event events ih =>
      cases event with
      | service d io => exact ih _
      | poll brk =>
          unfold waitServices
          split_ifs
          · exact neverZero_fail _
          · exact neverZero_fail _
          · exact neverZero_ok _
          · exact ih _

/-- A sequence ended with `0` in its first stage, or in the rest. -/
theorem load_bind_error {x : Load} {next : State → Load} {e : LoadExit} :
    (x >>= next) = .error e ↔ x = .error e ∨ ∃ s, x = .ok s ∧ next s = .error e := by
  cases x with
  | error e' => exact ⟨Or.inl, fun h => h.elim id fun ⟨_, h, _⟩ => nomatch h⟩
  | ok s => exact ⟨fun h => Or.inr ⟨s, rfl, h⟩, fun h =>
      h.elim (fun h => nomatch h) fun ⟨s', h, h'⟩ => (Except.ok.inj h) ▸ h'⟩

/-- A load that ends early with `0` only reported the database. -/
theorem parseConfig_returned {env : LoadEnv} {doc : Document} {s s' : State}
    (h : parseConfig env doc s = .error (.returned 0 s')) :
    (s.opt.dumpDisk = true ∨ s.opt.dumpFile = true) ∧
      ∃ db, s' = { s.setDb db with breakPtr := true } := by
  unfold parseConfig loadAssigned at h
  obtain h | ⟨s₁, -, h⟩ := load_bind_error.mp h
  case inr => exact absurd h (neverZero_waitServices _ _ _)
  obtain h | ⟨s₁, -, h⟩ := load_bind_error.mp h
  case inr =>
    obtain h | ⟨s₂, -, h⟩ := load_bind_error.mp h
    · exact absurd h (neverZero_assignLoop _ _ _ _ _)
    · exact nomatch h
  unfold loadObjects at h
  obtain h | ⟨s₁, hopen, h⟩ := load_bind_error.mp h
  · exact absurd h (neverZero_openMeta _ _ _ _)
  obtain ⟨db, rfl⟩ := openMeta_ok hopen
  obtain h | ⟨s₂, -, h⟩ := load_bind_error.mp h
  case inr =>
    refine absurd h (neverZero_bind (neverZero_resetMeta _) (fun s₃ => ?_) s')
    exact neverZero_bind (neverZero_loadDisks _ _ _) fun s₄ => neverZero_loadFiles _ _
  obtain ⟨hdump, db', hexit⟩ := dumpMeta_error h
  injection hexit with _ hs'
  exact ⟨hdump, db', hs'⟩

/-- An idle workload is loaded in the trivial sense: there are no files. -/
theorem Idle.loaded {s : State} (hs : Idle s) : Loaded s := by
  have hfiles : ∀ f, f ∉ s.fileHead := by
    intro f hf
    rw [hs.fileHead] at hf
    exact List.not_mem_nil hf
  have hnil : s.roster.fileHead = [] := hs.fileHead
  have hnil' : s.roster.diskHead = [] := hs.diskHead
  have hseated : Seated s.diskHead s.fileHead s.placement fun _ => [] := by
    rw [hs.fileHead, hs.diskHead]
    constructor <;> simp
  refine ⟨?_, ⟨_, hseated⟩, fun f hf => absurd hf (hfiles f), Or.inl hs.nextFileIndex,
    hs.fileSorted.trans hs.fileHead.symm, ?_, fun f hf => absurd hf (hfiles f),
    fun f hf => absurd hf (hfiles f), fun f hf => absurd hf (hfiles f),
    fun f hf => absurd hf (hfiles f), fun f hf => absurd hf (hfiles f)⟩
  · constructor
    · exact hs.disk.trans hs.diskHead.symm
    · rw [hnil']
      exact hs.diskCount
    · simp [hnil']
    · simp [hnil']
    · simp [hnil]
    · exact hs.fileOrdered.trans hs.fileHead.symm
    · rw [hnil]
      exact hs.fileCount
    · simp [hnil]
    · simp [hnil]
    · simp [hnil]
    · simp [hnil']
  · intro i f hif
    simp [hs.fileHead] at hif

/-- **A successful load.** Started from an idle workload, it ends loaded, and wrote data files only. -/
theorem workloadLoadConfig_ok {env : LoadEnv} {s s' : State} (hs : Idle s)
    (h : workloadLoadConfig env s = some (0, s')) : Loaded s' ∧ WroteOnlyData s.fs s' := by
  have hcode : ∀ s₁ : State, some ((-1 : Int), s₁) ≠ some (0, s') := by
    intro s₁ h
    exact absurd (congrArg Prod.fst (Option.some.inj h)) (by show ¬(-1 : Int) = 0; decide)
  unfold workloadLoadConfig at h
  split at h
  · exact absurd h (hcode _)
  dsimp only at h
  split at h
  · exact absurd h (hcode _)
  rename_i file doc _
  generalize hs₁ : ({ s with xml := some doc, cfg := { s.cfg with configFile := some file } } : State)
    = s₁ at h
  have hidle : Idle s₁ := by
    rw [← hs₁]
    exact ⟨hs.diskHead, hs.disk, hs.diskCount, hs.fileHead, hs.fileOrdered, hs.fileSorted, hs.fileEven,
      hs.fileCount, hs.nextFileIndex, hs.readCount, hs.writeCount, hs.service⟩
  have hfs : s.fs = s₁.fs := by rw [← hs₁]
  rw [hfs]
  split at h
  · rename_i s₂ hparse
    obtain rfl : s₂ = s' := congrArg Prod.snd (Option.some.inj h)
    exact parseConfig_ok hidle hparse
  · rename_i code s₂ hparse
    obtain ⟨rfl, rfl⟩ : code = 0 ∧ s₂ = s' :=
      ⟨congrArg Prod.fst (Option.some.inj h), congrArg Prod.snd (Option.some.inj h)⟩
    -- the database was reported, nothing is loaded
    obtain ⟨-, db, rfl⟩ := parseConfig_returned hparse
    have hidle' : Idle { s₁.setDb db with breakPtr := true } :=
      ⟨hidle.diskHead, hidle.disk, hidle.diskCount, hidle.fileHead, hidle.fileOrdered,
        hidle.fileSorted, hidle.fileEven, hidle.fileCount, hidle.nextFileIndex, hidle.readCount,
        hidle.writeCount, hidle.service⟩
    exact ⟨hidle'.loaded, fun dir name => Or.inl rfl⟩
  · exact nomatch h
  · exact nomatch h

/-! ## A small configuration -/

/-- Two files and two disks, in the directories `a` and `b`; `extra` goes below `config` as well. -/
def smallDocument (extra : List Xml) : Xml :=
  let leaf (name text : String) : Xml := .element name.toList [] text.toList []
  let node (name : String) (children : List Xml) : Xml := .element name.toList [] [] children
  let operation := node "operation" [leaf "files" "2", leaf "filesize" "1"]
  let storage := node "storage" [node "disk" [leaf "path" "a"], node "disk" [leaf "path" "b"]]
  node "workload" [node "config" (operation :: storage :: extra)]

theorem small_fits : (smallDocument []).size < 2 ^ 20 := by decide

/-- A transfer of up to one page. -/
def smallRound : IoRound := ⟨false, some 4096, some 4096, fun _ => 0⟩

/-- A move in which everything succeeds. -/
def smallMove : MoveIo :=
  ⟨true, true, true, true, true, fun _ => smallRound, none, ⟨true, true⟩⟩

/-- An access in which everything succeeds: a write for an odd `rand`, else a read. -/
def smallAccess (rand : Nat) : AccessIo := ⟨true, rand, true, fun _ => smallRound⟩

/-- A service step in which everything succeeds. -/
def smallService : ServiceIo := ⟨true, none, true, true, true, fun _ => smallRound⟩

/-- Everything succeeds; the first file goes to the first disk, the second to the second. -/
def smallEnv (extra : List Xml) (small : (smallDocument extra).size < 2 ^ 20)
    (openSqlite3 : Option (DbOutcomes SqliteExec)) : LoadEnv where
  openXml := fun _ => some ⟨smallDocument extra, small⟩
  openSqlite3 := openSqlite3
  openMysql := none
  brkDisk := fun _ => false
  newDisk := fun _ => true
  diskArray := true
  brkFile := fun _ => false
  newFile := fun _ => true
  fileArray := true
  brkAssign := fun _ => false
  rand := fun id => ⟨(id + 1) % 2, by omega⟩
  assignIo := fun _ => smallMove
  nextFileIndex := true
  openService := fun _ => true
  events := List.replicate 6 (.service 0 smallService) ++ List.replicate 6 (.service 1 smallService) ++
    [.poll false]

/-- The calls of a load with its two services, up to the poll that ends its wait. -/
def smallRun (env : LoadEnv) : List Op :=
  .load env :: (List.replicate 6 (.service 0 smallService) ++ List.replicate 6 (.service 1 smallService))

/-- The workload before the load, without a file anywhere. -/
def smallStart : State := workloadInit 0 id (fun _ _ => none) []

/-- A load that returns `0` ends in its state. -/
theorem load_eq_of_zero {x : Option (Int × State)} (h : x.map Prod.fst = some 0) :
    x = some (0, (x.map Prod.snd).getD smallStart) := by
  rcases x with _ | ⟨c, s⟩
  · exact nomatch h
  · obtain rfl : c = 0 := Option.some.inj h
    rfl

/-- The state behind the load. -/
@[irreducible] def smallLoaded : State :=
  ((workloadLoadConfig (smallEnv [] small_fits none) smallStart).map Prod.snd).getD smallStart

theorem small_loads :
    workloadLoadConfig (smallEnv [] small_fits none) smallStart = some (0, smallLoaded) := by
  unfold smallLoaded
  exact load_eq_of_zero (by decide +kernel)

/-- A load that runs through ends in its state. -/
theorem load_eq_of_isOk {x : Load} (h : x.isOk = true) : x = .ok x.state := by
  rcases x with e | s
  · exact nomatch h
  · rfl

/-- The state behind the stages that build the objects. -/
@[irreducible] def smallPrepared : State :=
  (loadObjects (smallEnv [] small_fits none) ⟨smallDocument [], small_fits⟩ smallStart).state

theorem small_prepares :
    loadObjects (smallEnv [] small_fits none) ⟨smallDocument [], small_fits⟩ smallStart =
      .ok smallPrepared := by
  unfold smallPrepared
  exact load_eq_of_isOk (by decide +kernel)

end Workload
