import Workload.Lib.Sums
import Workload.Correctness.Views

/-!
# `Correctness.Placement` — the disk lists represent who is on which disk

The abstract component is a map `seats` from disks to lists of files. `Seated` says that the pointers, heads
and counters of a `Placement` represent it. The two edits of the source, `unlinkFile` and `linkFile`, are
`Placement.unlink` and `Placement.link` on the view, and `erase` and `cons` on the represented lists
(`Seated.unlink`, `Seated.link`). `workload_assign_file_to_disk` is `Placement.move`, or it returns `-1` and
leaves the placement as it is (`assign_placement`).
-/

namespace Workload

open Intrusive

/-! ## The edits on the view -/

/-- `unlinkFile` on the view. -/
def Placement.unlink (p : Placement) (f : FilePtr) (d : DiskPtr) : Placement where
  links := p.links.unlink f
  home := Function.update p.home f none
  head := Function.update p.head d (p.links.unlinkHead f (p.head d))
  count := Function.update p.count d (sub64 (p.count d) 1)

/-- `linkFile` on the view. -/
def Placement.link (p : Placement) (f : FilePtr) (d : DiskPtr) : Placement where
  links := p.links.pushFront (p.head d) f
  home := Function.update p.home f (some d)
  head := Function.update p.head d (some f)
  count := Function.update p.count d (add64 (p.count d) 1)


/-- `f` leaves the disk it is on, if any, and joins `d`; nothing happens when it is there already. -/
def Placement.move (p : Placement) (f : FilePtr) (d : DiskPtr) : Placement :=
  if p.home f = some d then p
  else
    match p.home f with
    | none => p.link f d
    | some old => (p.unlink f old).link f d

/-! ## The code of the edits -/

theorem placement_modifyFile_eq (s : State) (f : FilePtr) (g : File → File) :
    (s.modifyFile f g).placement =
      { s.placement with
        links :=
          ⟨Function.update s.placement.links.prev f (g (s.files f)).assignPrev,
            Function.update s.placement.links.next f (g (s.files f)).assignNext⟩
        home := Function.update s.placement.home f (g (s.files f)).assignDisk } := by
  refine Placement.ext (Links.ext ?_ ?_) ?_ rfl rfl <;> funext x <;>
    simp only [State.placement, State.modifyFile_files, Function.update_apply] <;>
    split_ifs <;> rfl

theorem placement_modifyDisk_eq (s : State) (d : DiskPtr) (g : Disk → Disk) :
    (s.modifyDisk d g).placement =
      { s.placement with
        head := Function.update s.placement.head d (g (s.disks d)).assignFile
        count := Function.update s.placement.count d (g (s.disks d)).assignFileCount } := by
  refine Placement.ext rfl rfl ?_ ?_ <;> funext x <;>
    simp only [State.placement, State.modifyDisk_disks, Function.update_apply] <;>
    split_ifs <;> rfl

/-- The first write of the unlinking, on the view. -/
theorem bypassNext_placement (s : State) (f : FilePtr) :
    (bypassNext s f).placement =
      { s.placement with
        links :=
          { s.placement.links with
            prev := fun x => if s.placement.links.next f = some x then s.placement.links.prev f
              else s.placement.links.prev x } } := by
  unfold bypassNext
  cases hnext : (s.files f).assignNext with
  | none => simp [State.placement, hnext]
  | some n =>
      have hn : s.placement.links.next f = some n := hnext
      rw [placement_modifyFile_eq, hn]
      refine Placement.ext (Links.ext ?_ ?_) ?_ rfl rfl <;> funext x
      · by_cases hx : x = n
        · simp [hx, State.placement]
        · simp [hx, Ne.symm hx, State.placement]
      · by_cases hx : x = n <;> simp [hx, State.placement]
      · by_cases hx : x = n <;> simp [hx, State.placement]

/-- The second write of the unlinking, on the view. -/
theorem bypassPrev_placement (s : State) (f : FilePtr) (d : DiskPtr) :
    (bypassPrev s f d).placement =
      { s.placement with
        links :=
          { s.placement.links with
            next := fun x => if s.placement.links.prev f = some x then s.placement.links.next f
              else s.placement.links.next x }
        head := if s.placement.links.prev f = none then
            Function.update s.placement.head d (s.placement.links.next f)
          else s.placement.head } := by
  unfold bypassPrev
  cases hprev : (s.files f).assignPrev with
  | none =>
      have hp : s.placement.links.prev f = none := hprev
      rw [placement_modifyDisk_eq]
      refine Placement.ext (Links.ext rfl ?_) rfl ?_ ?_ <;> funext x
      · simp [hp]
      · simp [hprev, State.placement]
      · by_cases hx : x = d <;> simp [hx, State.placement]
  | some p =>
      have hp : s.placement.links.prev f = some p := hprev
      rw [placement_modifyFile_eq, hp]
      refine Placement.ext (Links.ext ?_ ?_) ?_ ?_ rfl
      · funext x
        by_cases hx : x = p <;> simp [hx, State.placement]
      · funext x
        by_cases hx : x = p
        · simp [hx, State.placement]
        · simp [hx, Ne.symm hx, State.placement]
      · funext x
        by_cases hx : x = p <;> simp [hx, State.placement]
      · simp

/-- **The C code of the unlinking is `unlink`**, whatever the pointers are. -/
theorem unlinkFile_placement (s : State) (f : FilePtr) (d : DiskPtr) :
    (unlinkFile s f d).placement = s.placement.unlink f d := by
  unfold unlinkFile
  rw [placement_modifyFile_eq, placement_modifyDisk_eq]
  have hcount : ((bypassPrev (bypassNext s f) f d).disks d).assignFileCount = s.placement.count d := by
    show (bypassPrev (bypassNext s f) f d).placement.count d = _
    rw [bypassPrev_placement, bypassNext_placement]
  have hhead : ((bypassPrev (bypassNext s f) f d).disks d).assignFile =
      (bypassPrev (bypassNext s f) f d).placement.head d := rfl
  rw [hhead, hcount, bypassPrev_placement, bypassNext_placement]
  refine Placement.ext (Links.ext ?_ ?_) rfl ?_ rfl
  · funext x
    by_cases hx : x = f <;> simp [Placement.unlink, Links.unlink, hx]
  · funext x
    by_cases hx : x = f <;> simp [Placement.unlink, Links.unlink, hx]
  · funext x
    by_cases hp : s.placement.links.prev f = none <;>
      by_cases hx : x = d <;> simp [Placement.unlink, Links.unlinkHead, hp, hx]

theorem backLink_placement (s : State) (head : Option FilePtr) (f : FilePtr) :
    (backLink s head f).placement =
      { s.placement with
        links :=
          { s.placement.links with
            prev := fun x => if head = some x then some f else s.placement.links.prev x } } := by
  unfold backLink
  cases head with
  | none => simp
  | some h =>
      dsimp only
      rw [placement_modifyFile_eq]
      refine Placement.ext (Links.ext ?_ ?_) ?_ rfl rfl <;> funext x
      · by_cases hx : x = h
        · simp [hx]
        · simp [hx, Ne.symm hx]
      · by_cases hx : x = h <;> simp [hx, State.placement]
      · by_cases hx : x = h <;> simp [hx, State.placement]

/-- **The C code of the linking is `link`.** -/
theorem linkFile_placement (s : State) (f : FilePtr) (d : DiskPtr) :
    (linkFile s f d).placement = s.placement.link f d := by
  unfold linkFile
  dsimp only
  -- the fields read on the way are fields of the view
  have hprev : ∀ s' : State, (s'.files f).assignPrev = s'.placement.links.prev f := fun _ => rfl
  have hnext : ∀ s' : State, (s'.files f).assignNext = s'.placement.links.next f := fun _ => rfl
  have hhome : ∀ s' : State, (s'.files f).assignDisk = s'.placement.home f := fun _ => rfl
  have hhead : ∀ s' : State, (s'.disks d).assignFile = s'.placement.head d := fun _ => rfl
  have hcount : ∀ s' : State, (s'.disks d).assignFileCount = s'.placement.count d := fun _ => rfl
  simp only [placement_modifyDisk_eq, placement_modifyFile_eq, backLink_placement, hprev, hnext,
    hhome, hhead, hcount]
  refine Placement.ext (Links.ext ?_ ?_) ?_ ?_ ?_ <;> funext x
  · by_cases hx : x = f <;> simp [Placement.link, Links.pushFront, hx]
  · by_cases hx : x = f <;> simp [Placement.link, Links.pushFront, hx]
  · by_cases hx : x = f <;> simp [Placement.link, hx]
  · by_cases hx : x = d <;> simp [Placement.link, hx]
  · by_cases hx : x = d <;> simp [Placement.link, hx]


/-- `f` leaves the disk it is on, if any. -/
def Placement.leave (p : Placement) (f : FilePtr) : Placement :=
  match p.home f with
  | none => p
  | some old => p.unlink f old

/-- `workload_deassign_file` always takes the file off its disk. -/
theorem deassign_placement (s : State) (f : FilePtr) (io : DeassignIo) :
    (workloadDeassignFile s f io).1 = 0 ∧
      (workloadDeassignFile s f io).2.placement = s.placement.leave f := by
  unfold workloadDeassignFile Placement.leave
  have hh : s.placement.home f = (s.files f).assignDisk := rfl
  rw [hh]
  cases (s.files f).assignDisk with
  | none => exact ⟨rfl, rfl⟩
  | some old => exact ⟨rfl, by simp [unlinkFile_placement]⟩

/-- `__workload_move_assign_file`: `-1` and nothing moved, or `0` and the file is off its disk. -/
theorem move_placement (s : State) (f : FilePtr) (d : DiskPtr) (io : MoveIo) :
    (workloadMoveAssignFile s f d io).1 = -1 ∧
        (workloadMoveAssignFile s f d io).2.placement = s.placement ∨
      (workloadMoveAssignFile s f d io).1 = 0 ∧
        (workloadMoveAssignFile s f d io).2.placement = s.placement.leave f := by
  unfold workloadMoveAssignFile
  cases hhome : (s.files f).assignDisk with
  | none =>
      have hh : s.placement.home f = none := hhome
      right
      simp [Placement.leave, hh]
  | some old =>
      have hok : ((0 : Int) = -1) = False := by decide
      simp only [(deassign_placement _ f io.deassign).1, hok, if_false]
      split_ifs
      · exact Or.inl ⟨rfl, rfl⟩
      · exact Or.inl ⟨rfl, rfl⟩
      · exact Or.inl ⟨rfl, rfl⟩
      · exact Or.inl ⟨rfl, rfl⟩
      · right
        simp [(deassign_placement _ f io.deassign).2]

/-- **`workload_assign_file_to_disk` moves the file, or returns `-1` and leaves the placement alone.** -/
theorem assign_placement (s : State) (f : FilePtr) (d : DiskPtr) (io : MoveIo) :
    (workloadAssignFileToDisk s (some f) (some d) io).1 = -1 ∧
        (workloadAssignFileToDisk s (some f) (some d) io).2.placement = s.placement ∨
      (workloadAssignFileToDisk s (some f) (some d) io).1 = 0 ∧
        (workloadAssignFileToDisk s (some f) (some d) io).2.placement = s.placement.move f d := by
  have hh : (s.files f).assignDisk = s.placement.home f := rfl
  unfold workloadAssignFileToDisk Placement.move
  dsimp only
  rw [hh]
  split_ifs with hsame hresult
  · exact Or.inr ⟨rfl, rfl⟩
  · obtain ⟨hfail, -⟩ | ⟨-, hplace⟩ := move_placement s f d io
    · rw [hfail] at hresult
      exact absurd hresult (by decide)
    · right
      refine ⟨hresult, ?_⟩
      rw [assignedSection_views.2.1, linkFile_placement, hplace]
      unfold Placement.leave
      cases s.placement.home f <;> rfl
  · obtain ⟨hfail, hplace⟩ | ⟨hok, -⟩ := move_placement s f d io
    · exact Or.inl ⟨hfail, hplace⟩
    · exact absurd hok hresult

/-- Wherever it was, a moved file is on `d` afterwards, and nobody else changed disks. -/
theorem Placement.move_home (p : Placement) (f : FilePtr) (d : DiskPtr) :
    (p.move f d).home = Function.update p.home f (some d) := by
  unfold Placement.move
  split_ifs with hsame
  · rw [← hsame, Function.update_eq_self]
  · cases p.home f with
    | none => rfl
    | some old =>
        show Function.update (Function.update p.home f none) f (some d) = _
        rw [Function.update_idem]

/-! ## Representation -/

/-- The placement represents the lists `seats`, for the disks and the files of two chains. -/
structure Seated (disks : List DiskPtr) (files : List FilePtr) (p : Placement)
    (seats : DiskPtr → List FilePtr) : Prop where
  list : ∀ d ∈ disks, IsList p.links (p.head d) (seats d)
  inside : ∀ d ∈ disks, seats d ⊆ files
  home : ∀ d ∈ disks, ∀ f ∈ files, f ∈ seats d ↔ p.home f = some d
  target : ∀ f ∈ files, ∀ d, p.home f = some d → d ∈ disks
  count : ∀ d ∈ disks, p.count d = (seats d).length

variable {disks : List DiskPtr} {files : List FilePtr} {p : Placement}
  {seats : DiskPtr → List FilePtr} {f : FilePtr} {d e : DiskPtr}

/-- No file is on two lists. -/
theorem Seated.disjoint (h : Seated disks files p seats) (hd : d ∈ disks) (he : e ∈ disks)
    (hde : d ≠ e) : ∀ x ∈ seats d, x ∉ seats e := by
  intro x hx hx'
  have hfile := h.inside d hd hx
  have hxd := (h.home d hd x hfile).mp hx
  have hxe := (h.home e he x hfile).mp hx'
  exact hde (Option.some.inj (hxd.symm.trans hxe))

theorem Seated.length_le (h : Seated disks files p seats) (hd : d ∈ disks) :
    (seats d).length ≤ files.length :=
  (List.Nodup.subperm (h.list d hd).2 (h.inside d hd)).length_le

/-- **Unlinking erases the file from the list of its disk.** -/
theorem Seated.unlink (h : Seated disks files p seats) (hlen : files.length < 2 ^ 64)
    (hf : f ∈ files) (hhome : p.home f = some d) :
    Seated disks files (p.unlink f d) (Function.update seats d ((seats d).erase f)) := by
  have hd : d ∈ disks := h.target f hf d hhome
  have hfd : f ∈ seats d := (h.home d hd f hf).mpr hhome
  constructor
  · intro e he
    by_cases hed : e = d
    · subst hed
      simp only [Placement.unlink, Function.update_self]
      exact (h.list e he).unlink_erase hfd
    · simp only [Placement.unlink, Function.update_of_ne hed]
      exact (h.list d hd).unlink_frame hfd (h.list e he) (h.disjoint he hd hed)
  · intro e he
    by_cases hed : e = d
    · subst hed
      rw [Function.update_self]
      exact fun x hx => h.inside e he (List.mem_of_mem_erase hx)
    · rw [Function.update_of_ne hed]
      exact h.inside e he
  · intro e he x hx
    by_cases hed : e = d
    · subst hed
      rw [Function.update_self, (h.list e he).2.mem_erase_iff, h.home e he x hx]
      by_cases hxf : x = f <;> simp [Placement.unlink, hxf]
    · rw [Function.update_of_ne hed, h.home e he x hx]
      by_cases hxf : x = f
      · subst hxf
        simp [Placement.unlink, hhome, Ne.symm hed]
      · simp [Placement.unlink, hxf]
  · intro x hx e hxe
    by_cases hxf : x = f
    · simp [Placement.unlink, hxf] at hxe
    · simp only [Placement.unlink, Function.update_of_ne hxf] at hxe
      exact h.target x hx e hxe
  · intro e he
    by_cases hed : e = d
    · subst hed
      have hpos := List.length_pos_of_mem hfd
      have hle := h.length_le he
      simp only [Placement.unlink, Function.update_self]
      rw [h.count e he, sub64_of_le hpos (by omega), List.length_erase_of_mem hfd]
    · simp only [Placement.unlink, Function.update_of_ne hed]
      exact h.count e he

/-- **Linking puts the file in front of the list.** -/
theorem Seated.link (h : Seated disks files p seats) (hlen : files.length < 2 ^ 64)
    (hf : f ∈ files) (hhome : p.home f = none) (hd : d ∈ disks) :
    Seated disks files (p.link f d) (Function.update seats d (f :: seats d)) := by
  have hnone : ∀ e ∈ disks, f ∉ seats e := by
    intro e he hfe
    rw [h.home e he f hf, hhome] at hfe
    exact nomatch hfe
  have hlist : IsList (p.links.pushFront (p.head d) f) (some f) (f :: seats d) :=
    (h.list d hd).pushFront (hnone d hd)
  have hinside : f :: seats d ⊆ files := List.cons_subset.mpr ⟨hf, h.inside d hd⟩
  constructor
  · intro e he
    by_cases hed : e = d
    · subst hed
      simp only [Placement.link, Function.update_self]
      exact hlist
    · simp only [Placement.link, Function.update_of_ne hed]
      refine (h.list e he).pushFront_frame (hnone e he) fun x hx => ?_
      rw [(h.list d hd).1.head_eq]
      exact fun hhd => h.disjoint he hd hed x hx (List.mem_of_mem_head? hhd)
  · intro e he
    by_cases hed : e = d
    · subst hed
      rw [Function.update_self]
      exact hinside
    · rw [Function.update_of_ne hed]
      exact h.inside e he
  · intro e he x hx
    by_cases hxf : x = f
    · subst hxf
      by_cases hed : e = d
      · simp [Placement.link, hed]
      · simp [Placement.link, hed, Ne.symm hed, hnone e he]
    · by_cases hed : e = d
      · subst hed
        simp [Placement.link, hxf, h.home e he x hx]
      · simp [Placement.link, hxf, hed, h.home e he x hx]
  · intro x hx e hxe
    by_cases hxf : x = f
    · subst hxf
      obtain rfl : d = e := by simpa [Placement.link] using hxe
      exact hd
    · simp only [Placement.link, Function.update_of_ne hxf] at hxe
      exact h.target x hx e hxe
  · intro e he
    by_cases hed : e = d
    · subst hed
      have hle := (List.Nodup.subperm hlist.2 hinside).length_le
      simp only [List.length_cons] at hle
      simp only [Placement.link, Function.update_self]
      rw [h.count e he, add64_of_lt (by omega), List.length_cons]
    · simp only [Placement.link, Function.update_of_ne hed]
      exact h.count e he

/-- **Moving keeps the representation**, of other lists. -/
theorem Seated.move (h : Seated disks files p seats) (hlen : files.length < 2 ^ 64)
    (hf : f ∈ files) (hd : d ∈ disks) : ∃ seats', Seated disks files (p.move f d) seats' := by
  unfold Placement.move
  split_ifs with hsame
  · exact ⟨seats, h⟩
  · cases hhome : p.home f with
    | none => exact ⟨_, h.link hlen hf hhome hd⟩
    | some old =>
        have hoff : (p.unlink f old).home f = none := by simp [Placement.unlink]
        exact ⟨_, (h.unlink hlen hf hhome).link hlen hf hoff hd⟩

/-- The counter of a disk is the number of files that name it as theirs. -/
theorem Seated.count_eq (h : Seated disks files p seats) (hnd : files.Nodup) (hd : d ∈ disks) :
    p.count d = files.countP fun f => p.home f == some d := by
  rw [h.count d hd, List.countP_eq_length_filter]
  refine List.Perm.length_eq ?_
  refine (List.perm_ext_iff_of_nodup (h.list d hd).2 (hnd.filter _)).mpr fun f => ?_
  rw [List.mem_filter]
  constructor
  · intro hf
    have hfile := h.inside d hd hf
    exact ⟨hfile, by simpa using (h.home d hd f hfile).mp hf⟩
  · rintro ⟨hfile, hhome⟩
    exact (h.home d hd f hfile).mpr (by simpa using hhome)

/-- The counters of all disks sum to the number of assigned files. -/
theorem Seated.sum_count (h : Seated disks files p seats) (hdisks : disks.Nodup)
    (hfiles : files.Nodup) :
    (disks.map p.count).sum = files.countP fun f => (p.home f).isSome := by
  have hcount : disks.map p.count = disks.map fun d => files.countP fun f => p.home f == some d :=
    List.map_congr_left fun d hd => h.count_eq hfiles hd
  rw [hcount]
  exact Sums.sum_countP hdisks h.target

end Workload
