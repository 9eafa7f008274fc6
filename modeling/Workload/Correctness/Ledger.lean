import Workload.Correctness.Conservation

/-!
# `Correctness.Ledger` — the meta database and who is in it

The view `ledger` is the database with the inserted flags, and the chains and ids that say which row is whose.
Nothing but `workload_update_db` writes it: every other part of every section leaves it alone
(**`Section.ledger_rule`**).
-/

namespace Workload

open State

/-- The database, the inserted flags, and the keys of the rows. -/
structure Ledger where
  db : Option Db
  fileHead : List FilePtr
  diskHead : List DiskPtr
  fileId : FilePtr → Nat
  diskId : DiskPtr → Nat
  inFile : FilePtr → Bool
  inDisk : DiskPtr → Bool

def State.ledger (s : State) : Ledger where
  db := s.db
  fileHead := s.fileHead
  diskHead := s.diskHead
  fileId f := (s.files f).id
  diskId d := (s.disks d).id
  inFile f := (s.files f).insertedDb
  inDisk d := (s.disks d).insertedDb

variable {s : State} {f : FilePtr} {d : DiskPtr}

/-! ## What leaves the ledger alone -/

@[simp] theorem ledger_modifyFile {g : File → File} (hid : ∀ x, (g x).id = x.id)
    (hflag : ∀ x, (g x).insertedDb = x.insertedDb) : (s.modifyFile f g).ledger = s.ledger := by
  simp only [State.ledger, modifyFile_field hid, modifyFile_field hflag]
  rfl

@[simp] theorem ledger_modifyDisk {g : Disk → Disk} (hid : ∀ x, (g x).id = x.id)
    (hflag : ∀ x, (g x).insertedDb = x.insertedDb) : (s.modifyDisk d g).ledger = s.ledger := by
  simp only [State.ledger, modifyDisk_field hid, modifyDisk_field hflag]
  rfl

@[simp] theorem ledger_setPath {dir name : Text} {c : Option Bytes} :
    (s.setPath dir name c).ledger = s.ledger := rfl

@[simp] theorem ledger_setTotals {r w : Nat} : (s.setTotals r w).ledger = s.ledger := rfl

@[simp] theorem ledger_setSorted {i : Nat} : (s.setSorted i f).ledger = s.ledger := rfl

@[simp] theorem ledger_setServiceCounts {r e : Nat} : (s.setServiceCounts r e).ledger = s.ledger := rfl

@[simp] theorem ledger_setRelocate {b : Bool} : (s.setRelocate b).ledger = s.ledger := rfl

@[simp] theorem ledger_setPc {pc : ServicePc} : (setPc s d pc).ledger = s.ledger := by
  simp [setPc]

@[simp] theorem ledger_deleteCreated {io : DeassignIo} : (deleteCreated s f d io).ledger = s.ledger := by
  unfold deleteCreated
  split_ifs <;> simp

@[simp] theorem ledger_unlinkFile : (unlinkFile s f d).ledger = s.ledger := by
  have hnext : (bypassNext s f).ledger = s.ledger := by
    unfold bypassNext
    split <;> simp
  have hprev : ∀ s, (bypassPrev s f d).ledger = s.ledger := by
    intro s
    unfold bypassPrev
    split <;> simp
  simp [unlinkFile, hprev, hnext]

@[simp] theorem ledger_linkFile : (linkFile s f d).ledger = s.ledger := by
  have hback : ∀ s head, (backLink s head f).ledger = s.ledger := by
    intro s head
    unfold backLink
    split <;> simp
  simp [linkFile, hback]

@[simp] theorem ledger_workloadDeassignFile {io : DeassignIo} :
    (workloadDeassignFile s f io).2.ledger = s.ledger := by
  unfold workloadDeassignFile
  split <;> simp

@[simp] theorem ledger_workloadMoveAssignFile {io : MoveIo} :
    (workloadMoveAssignFile s f d io).2.ledger = s.ledger := by
  unfold workloadMoveAssignFile
  dsimp only
  split
  · simp
  · split_ifs <;> simp

@[simp] theorem ledger_accessTransfer {io : AccessIo} : (accessTransfer s f d io).2.ledger = s.ledger := by
  unfold accessTransfer
  dsimp only
  cases s.fs (s.dir d) (s.files f).filename with
  | none => split_ifs <;> simp
  | some contents =>
      dsimp only
      split_ifs <;> simp

@[simp] theorem ledger_countAccess {r w : Nat} : (countAccess s f r w).ledger = s.ledger := by
  unfold countAccess
  dsimp only
  split <;> simp

@[simp] theorem ledger_sortIndex {count i : Nat} : (sortIndex f count i s).ledger = s.ledger := by
  induction i generalizing s with
  | zero => simp [sortIndex]
  | succ i ih =>
      unfold sortIndex
      dsimp only
      split_ifs
      · simp
      · simp [ih]

@[simp] theorem ledger_planReassign : (planReassign s).ledger = s.ledger := by
  have hwindow : ∀ d n i s, (planWindow d n i s).ledger = s.ledger := by
    intro d n
    induction n with
    | zero => exact fun _ _ => rfl
    | succ n ih => exact fun i s => by simp [planWindow, ih]
  have hloop : ∀ next n i j s, (planLoop next n i j s).ledger = s.ledger := by
    intro next n
    induction n with
    | zero => exact fun _ _ _ => rfl
    | succ n ih => exact fun i j s => by simp [planLoop, ih, hwindow]
  unfold planReassign
  split <;> simp [hloop]

@[simp] theorem ledger_workloadUpdateScreen {height : Nat} :
    (workloadUpdateScreen s height).ledger = s.ledger := by
  unfold workloadUpdateScreen
  split_ifs <;> rfl

@[simp] theorem ledger_startServices {env : LoadEnv} : (startServices env s).ledger = s.ledger := by
  have htree : ∀ (s : State) entry, (deleteTree s entry).ledger = s.ledger := fun _ _ => rfl
  have hclose : ∀ (s : State) d, (closeService s d).ledger = s.ledger := by
    intro s d
    unfold closeService
    split
    · rfl
    · dsimp only
      split <;> simp [htree]
  unfold startServices
  exact foldl_keeps (p := State.ledger) (fun s d => by simp [openService, hclose]) _ _

/-! ## The sections -/

/-- **Rule for the sections.** What every `workload_update_db` keeps of the ledger, every section keeps. -/
theorem Section.ledger_rule {P : Ledger → Prop}
    (hpush : ∀ s file disk, P s.ledger → P (updateDb s file disk).ledger) (sec : Section)
    (h : P s.ledger) : P (sec.run s).ledger := by
  have hquiet : ∀ {s s' : State}, s'.ledger = s.ledger → P s.ledger → P s'.ledger := fun heq h => heq ▸ h
  have hfold : ∀ {β : Type} (g : State → β → State), (∀ s b, P s.ledger → P (g s b).ledger) →
      ∀ (l : List β) (s : State), P s.ledger → P (l.foldl g s).ledger := by
    intro β g hg l
    induction l with
    | nil => exact fun _ h => h
    | cons b l ih => exact fun s h => ih _ (hg s b h)
  have hrestart : ∀ s d, P s.ledger → P (restartDisk s d).ledger := by
    intro s d h
    exact hpush _ _ _ (hquiet (by simp) h)
  cases sec with
  | service d io =>
      show P (diskServiceStep s d io).ledger
      unfold diskServiceStep
      dsimp only
      split
      · exact h
      · split_ifs
        · exact hquiet (by simp) h
        · exact hquiet (by simp) h
        · exact hquiet (by simp) h
      · exact hquiet (by simp) h
      · split_ifs
        · exact hquiet (by simp) h
        · exact hquiet (by simp) h
        · exact hquiet (by simp) h
      · exact hquiet (ledger_setPc) (hpush _ _ _ (hquiet (by simp) h))
      · exact hquiet (by simp) h
      · exact h
      · exact h
  | transfer f d io => exact hquiet ledger_accessTransfer h
  | access f r w => exact hpush _ _ _ (hquiet (by simp) h)
  | reset =>
      refine hquiet ledger_setTotals (hfold _ ?_ _ _ (hfold _ ?_ _ _ h))
      · intro s d h
        exact hpush _ _ _ (hquiet (by simp) h)
      · intro s f h
        exact hpush _ _ _ (hquiet (by simp) h)
  | setRelocate value => exact hquiet ledger_setRelocate h
  | restart => exact hfold _ hrestart _ _ h
  | moveOut f d io => exact hquiet ledger_workloadMoveAssignFile h
  | linkIn f d => exact hquiet ledger_linkFile h
  | moved f d oldDisk =>
      refine hpush _ _ _ (hquiet ?_ h)
      cases oldDisk <;> simp
  | unplan f => exact hquiet (by simp [Section.run]) h
  | index env => exact hquiet rfl h
  | start env => exact hquiet ledger_startServices h
  | tick timeStamp => exact hquiet rfl h
  | screen height => exact hquiet ledger_workloadUpdateScreen h

end Workload
