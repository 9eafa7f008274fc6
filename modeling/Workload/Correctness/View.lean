import Workload.Model.View
import Workload.Correctness.Conservation
import Workload.Correctness.Numerals

/-!
# `Correctness.View` — the cells of the screen and the width of their column

A column is at least seven characters wide. The file count has room for its terminator on top of that and fits
with a unit letter, and a time span loses decimals as it grows. A share of the accesses has three decimals however
large it is, and an access count is put into a buffer one byte short.

* `timeCell_fits` — a time span fits every column.
* **`column_fits`** — in every state of every run, the cells of a disk fit exactly when its two shares and its two
  access counts are small enough for the column; `shareFits_iff` says when that is.
-/

namespace Workload

open Intrusive Trace

/-- The text is there and not wider than the column. -/
def CellFits (width : Nat) (cell : Option Text) : Prop := ∃ text, cell = some text ∧ text.length ≤ width

/-! ## Shares -/

theorem length_formatPadded {w n : Nat} (hw : 0 < w) (hn : n < 10 ^ w) : (formatPadded w n).length = w := by
  have hlen := (length_formatUnsigned_le hw).mpr hn
  unfold formatPadded
  rw [List.length_append, List.length_replicate]
  omega

/-- A share has three decimals, the point and the percent sign. -/
theorem length_percentCell_le {width ratio : Nat} (hwidth : 7 ≤ width) :
    (percentCell ratio).length ≤ width ↔ ratio < 10 ^ (width - 2) := by
  obtain ⟨w, rfl⟩ : ∃ w, width = w + 6 := ⟨width - 6, by omega⟩
  have hdecimals : (formatPadded 3 (ratio % 1000)).length = 3 :=
    length_formatPadded (by decide) (Nat.mod_lt _ (by decide))
  have hdigits := @length_formatUnsigned_le (ratio / 1000) (w + 1) (Nat.succ_pos w)
  have hpow : 10 ^ (w + 6 - 2) = 10 ^ (w + 1) * 1000 := by
    rw [show w + 6 - 2 = w + 1 + 3 by omega, Nat.pow_add]
  rw [hpow, ← Nat.div_lt_iff_lt_mul (by decide), ← hdigits]
  unfold percentCell
  simp only [List.length_append, List.length_singleton, hdecimals]
  omega

/-! ## Counts -/

theorem iterate_div (value div k : Nat) : (· / div)^[k] value = value / div ^ k := by
  induction k with
  | zero => simp
  | succ k ih =>
      rw [Function.iterate_succ_apply', ih]
      exact (Nat.div_div_eq_div_mul _ _ _)

theorem commaDecimal_length (n : Nat) :
    (commaDecimal n).length = (formatUnsigned n).length + ((formatUnsigned n).length - 1) / 3 :=
  Grouping.length_separate ',' 3 (formatUnsigned n)

theorem printable_length {bufferSize value : Nat} (hsize : bufferSize < 2 ^ 64) (hpos : 0 < bufferSize)
    {text : Text} (h : workloadPrintableCommaString bufferSize value 1000 = some text) :
    text.length + 1 ≤ bufferSize := by
  have hbytes := (@printable_ok _ value 1000 hsize (Or.inl hpos)).bytes
  rwa [h] at hbytes

/-- The call succeeds exactly when some unit fits. -/
theorem printable_some_iff {bufferSize value : Nat} (hsize : bufferSize < 2 ^ 64) (hpos : 0 < bufferSize) :
    (∃ text, workloadPrintableCommaString bufferSize value 1000 = some text) ↔
      ∃ k, UnitFits bufferSize value 1000 k := by
  have hok := @printable_ok _ value 1000 hsize (Or.inl hpos)
  constructor
  · rintro ⟨text, htext⟩
    obtain ⟨k, hk, -⟩ := hok.least text htext
    exact ⟨k, hk.1⟩
  · rintro ⟨k, hk⟩
    exact Option.ne_none_iff_exists'.mp fun hnone => hok.none_iff.mp hnone k hk

theorem length_unitText (value k : Nat) :
    (unitText value 1000 k).length = (commaDecimal (value / 1000 ^ k)).length + (unitLetter k).length := by
  unfold unitText
  rw [List.length_append, iterate_div]

/-- The last unit fits in seven bytes up to four digits, and in eight always. -/
theorem unitFits_thousand_iff {bufferSize value : Nat} (hsize : 7 ≤ bufferSize) (hvalue : value < 2 ^ 64) :
    (∃ k, UnitFits bufferSize value 1000 k) ↔ 8 ≤ bufferSize ∨ value < 10 ^ 19 := by
  -- four digits, a comma, the letter and the terminator make seven bytes
  have hfour : ∀ k, (formatUnsigned (value / 1000 ^ k)).length ≤ 4 ↔ value / 1000 ^ k < 10 ^ 4 :=
    fun k => length_formatUnsigned_le (by decide)
  constructor
  · rintro ⟨k, hk, -, hroom⟩
    by_contra hneither
    obtain ⟨hseven, hlarge⟩ := not_or.mp hneither
    rw [length_unitText, commaDecimal_length] at hroom
    -- at least five digits are left, whatever the unit
    have hdigits : 10 ^ 4 ≤ value / 1000 ^ k := by
      have hpow : 1000 ^ k ≤ 1000 ^ 5 := Nat.pow_le_pow_right (by decide) hk
      rw [Nat.le_div_iff_mul_le (Nat.pow_pos (by decide))]
      refine (Nat.mul_le_mul_left _ hpow).trans ?_
      omega
    have hlen := (hfour k).not.mpr (Nat.not_lt.mpr hdigits)
    match k, hk with
    | 0, _ =>
        have hzero : (formatUnsigned (value / 1000 ^ 0)).length ≤ 19 ↔ value / 1000 ^ 0 < 10 ^ 19 :=
          length_formatUnsigned_le (by decide)
        rw [pow_zero, Nat.div_one] at *
        omega
    | 1, _ | 2, _ | 3, _ | 4, _ | 5, _ =>
        rw [show (unitLetter _).length = 1 from rfl] at hroom
        omega
  · intro h
    refine ⟨5, le_rfl, nofun, ?_⟩
    have hfive : (formatUnsigned (value / 1000 ^ 5)).length ≤ 5 ↔ value / 1000 ^ 5 < 10 ^ 5 :=
      length_formatUnsigned_le (by decide)
    have hfour' := hfour 5
    rw [length_unitText, commaDecimal_length, show (unitLetter 5).length = 1 from rfl]
    omega

/-- **A number in a cell**: it fits in eight bytes, and in seven up to nineteen digits. -/
theorem printable_thousand_iff {bufferSize value : Nat} (hseven : 7 ≤ bufferSize) (hsize : bufferSize < 2 ^ 64)
    (hvalue : value < 2 ^ 64) :
    (∃ text, workloadPrintableCommaString bufferSize value 1000 = some text) ↔
      8 ≤ bufferSize ∨ value < 10 ^ 19 :=
  (printable_some_iff hsize (by omega)).trans (unitFits_thousand_iff hseven hvalue)

/-! ## Time spans -/

/-- **A time span fits every column.** -/
theorem timeCell_fits {width timeStamp : Nat} (hseven : 7 ≤ width) (hwidth : width < 2 ^ 64)
    (htime : timeStamp < 2 ^ 64) : CellFits width (timeCell width timeStamp) := by
  have hdecimals : ∀ digits w n, 0 < digits → 0 < w → timeStamp / 1000 < 10 ^ digits → n < 10 ^ w →
      digits + w + 2 ≤ width →
      CellFits width (some (formatUnsigned (timeStamp / 1000) ++ ['.'] ++ formatPadded w n ++ ['s'])) := by
    intro digits w n hdigits hw hseconds hn hroom
    have hlen := (length_formatUnsigned_le hdigits).mpr hseconds
    refine ⟨_, rfl, ?_⟩
    simp only [List.length_append, List.length_singleton, length_formatPadded hw hn]
    omega
  unfold timeCell
  split_ifs with hlong hfour hthree
  · -- from ten thousand seconds on, without decimals
    obtain ⟨text, htext⟩ := (printable_thousand_iff hseven hwidth
      (show timeStamp / 1000 < 2 ^ 64 by omega)).mpr (Or.inr (by omega))
    refine ⟨text ++ ['s'], by rw [htext, Option.map_some], ?_⟩
    rw [List.length_append, List.length_singleton]
    exact printable_length hwidth (by omega) htext
  · exact hdecimals 4 1 _ (by decide) (by decide) (by omega) (by omega) (by omega)
  · exact hdecimals 3 2 _ (by decide) (by decide) (by omega) (by omega) (by omega)
  · exact hdecimals 2 3 _ (by decide) (by decide) (by omega) (by omega) (by omega)

theorem fakeCell_fits {s : State} {d : DiskPtr} (hseven : 7 ≤ gridX s) (hwidth : gridX s < 2 ^ 64) :
    CellFits (gridX s) (fakeCell s d) := by
  unfold fakeCell
  dsimp only
  split_ifs
  · exact ⟨_, rfl, Nat.le_of_succ_le (Nat.le_of_succ_le (Nat.le_of_succ_le (Nat.le_of_succ_le hseven)))⟩
  · exact ⟨_, rfl, Nat.le_of_succ_le (Nat.le_of_succ_le (Nat.le_of_succ_le hseven))⟩
  · exact timeCell_fits hseven hwidth (Nat.mod_lt _ (Nat.two_pow_pos 64))

/-! ## The column -/

variable {s : State} {d : DiskPtr}

/-- The accesses a disk has counted. -/
def diskPart (s : State) (d : DiskPtr) : Nat := add64 (s.disks d).readCount (s.disks d).writeCount

/-- The accesses that the files of a disk have counted, when any are counted at all. -/
def filesPart (s : State) (d : DiskPtr) : Nat :=
  let files := s.fileHead.filter fun f => (s.files f).assignDisk = some d
  if add64 s.readCount s.writeCount = 0 then 0
  else ((files.map s.counters.fileRead).sum + (files.map s.counters.fileWrite).sum) % 2 ^ 64

/-- A part of the accesses fits the column, as a share of them and as a number. -/
def ShareFits (s : State) (part : Nat) : Prop :=
  (add64 s.readCount s.writeCount = 0 ∨
      part * 100000 % 2 ^ 64 / add64 s.readCount s.writeCount % 2 ^ 32 < 10 ^ (gridX s - 2)) ∧
    (8 ≤ gridX s ∨ part < 10 ^ 19)

/-- Every cell of the column is there and fits. -/
def ColumnFits (s : State) (d : DiskPtr) : Prop :=
  ∃ cells, diskColumn s d = some cells ∧ ∀ cell ∈ cells, CellFits (gridX s) cell

theorem seven_le_gridX (s : State) : 7 ≤ gridX s := by
  unfold gridX
  split_ifs <;> omega

/-- A part is shown by two cells. -/
theorem shareFits_cells (hwidth : gridX s + 1 < 2 ^ 64) {part : Nat} (hpart : part < 2 ^ 64) :
    ShareFits s part ↔ CellFits (gridX s) (some (percentCell (usageRatio s part))) ∧
      CellFits (gridX s) (workloadPrintableCommaString (gridX s - 1 + 1) part 1000) := by
  have hseven := seven_le_gridX s
  have hcell : CellFits (gridX s) (some (percentCell (usageRatio s part))) ↔
      usageRatio s part < 10 ^ (gridX s - 2) := by
    rw [← length_percentCell_le hseven]
    constructor
    · rintro ⟨text, htext, hlen⟩
      exact Option.some.inj htext ▸ hlen
    · exact fun hlen => ⟨_, rfl, hlen⟩
  have hwidth' : gridX s - 1 + 1 = gridX s := by omega
  have hcount : CellFits (gridX s) (workloadPrintableCommaString (gridX s) part 1000) ↔
      8 ≤ gridX s ∨ part < 10 ^ 19 := by
    rw [← printable_thousand_iff hseven (by omega) hpart]
    constructor
    · rintro ⟨text, htext, -⟩
      exact ⟨text, htext⟩
    · rintro ⟨text, htext⟩
      exact ⟨text, htext, Nat.le_of_succ_le (printable_length (by omega) (by omega) htext)⟩
  rw [hcell, hwidth', hcount]
  refine and_congr_left' ?_
  unfold usageRatio
  dsimp only
  by_cases htotal : add64 s.readCount s.writeCount = 0
  · rw [if_neg (Nat.not_lt.mpr htotal.le)]
    exact iff_of_true (Or.inl htotal) (Nat.pow_pos (by decide))
  · rw [if_pos (Nat.pos_of_ne_zero htotal)]
    exact or_iff_right htotal

/-- **When a part fits**: in eight characters always; in seven unless it is all there is, or has twenty digits. -/
theorem shareFits_iff {part : Nat} (hpart : part ≤ s.readCount + s.writeCount)
    (htotal : s.readCount + s.writeCount < 2 ^ 64) :
    ShareFits s part ↔ 8 ≤ gridX s ∨
      (s.readCount + s.writeCount = 0 ∨ part < s.readCount + s.writeCount ∨ 2 ^ 64 ≤ part * 100000) ∧
        part < 10 ^ 19 := by
  have hseven := seven_le_gridX s
  unfold ShareFits
  rw [add64_of_lt htotal]
  generalize s.readCount + s.writeCount = total at hpart htotal
  rcases Nat.eq_zero_or_pos total with rfl | hpos
  · simp
  · have hmul : part * 100000 ≤ total * 100000 := Nat.mul_le_mul_right _ hpart
    have hquot : part * 100000 % 2 ^ 64 / total ≤ 100000 :=
      Nat.div_le_of_le_mul ((Nat.mod_le _ _).trans hmul)
    -- the figure of all accesses, as long as the product does not wrap
    have hfull : part * 100000 % 2 ^ 64 / total < 100000 ↔ part < total ∨ 2 ^ 64 ≤ part * 100000 := by
      rw [Nat.div_lt_iff_lt_mul hpos]
      constructor
      · intro hlt
        by_contra hneither
        obtain ⟨hle, hfits⟩ := not_or.mp hneither
        rw [Nat.mod_eq_of_lt (Nat.not_le.mp hfits)] at hlt
        omega
      · rintro (hlt | hwrap)
        · have hmod := Nat.mod_le (part * 100000) (2 ^ 64)
          omega
        · have hmod := Nat.mod_lt (part * 100000) (Nat.two_pow_pos 64)
          omega
    rw [Nat.mod_eq_of_lt (hquot.trans_lt (by decide)), or_iff_right hpos.ne', or_iff_right hpos.ne', ← hfull]
    rcases Nat.lt_or_ge (gridX s) 8 with hlt | hge
    · have heq : gridX s - 2 = 5 := by omega
      rw [heq]
      omega
    · have hpow : 10 ^ 6 ≤ 10 ^ (gridX s - 2) := Nat.pow_le_pow_right (by decide) (by omega)
      exact iff_of_true ⟨by omega, Or.inl hge⟩ (Or.inl hge)

/-- What the files of a disk have counted. -/
theorem fileCounts_eq (h : Anchored s) (hd : d ∈ s.diskHead) :
    ∃ r w, fileCounts s d = some (r, w) ∧ add64 r w = filesPart s d := by
  obtain ⟨seats, hseats⟩ := h.seated
  -- the list of the disk has the files that are at home on it
  have hperm : (seats d).Perm (s.fileHead.filter fun f => (s.files f).assignDisk = some d) := by
    refine (List.perm_ext_iff_of_nodup (hseats.list d hd).2 (h.built.fileHead_nodup.filter _)).mpr fun f => ?_
    rw [List.mem_filter, decide_eq_true_iff]
    refine ⟨fun hf => ?_, fun ⟨hf, hhome⟩ => (hseats.home d hd f hf).mpr hhome⟩
    have hfile := hseats.inside d hd hf
    exact ⟨hfile, (hseats.home d hd f hfile).mp hf⟩
  unfold fileCounts filesPart
  dsimp only
  by_cases htotal : add64 s.readCount s.writeCount = 0
  · rw [if_neg (Nat.not_lt.mpr htotal.le), if_pos htotal]
    exact ⟨0, 0, rfl, rfl⟩
  · rw [if_pos (Nat.pos_of_ne_zero htotal), if_neg htotal]
    refine ⟨_, _, usageLoop_mod 0 0 (hseats.list d hd).1 (hseats.length_le hd), ?_⟩
    rw [Nat.zero_add, Nat.zero_add, (hperm.map s.counters.fileRead).sum_eq,
      (hperm.map s.counters.fileWrite).sum_eq]
    exact (Nat.add_mod _ _ _).symm

/-- **The column of a disk** fits exactly when its two parts of the accesses do. -/
theorem Anchored.columnFits_iff (h : Anchored s) (hfiles : s.fileHead.length < 2 ^ 64)
    (hwidth : gridX s + 1 < 2 ^ 64) (hd : d ∈ s.diskHead) :
    ColumnFits s d ↔ ShareFits s (diskPart s d) ∧ ShareFits s (filesPart s d) := by
  obtain ⟨r, w, hcounts, hpart⟩ := fileCounts_eq h hd
  obtain ⟨seats, hseats⟩ := h.seated
  have hseven := seven_le_gridX s
  have hlt : ∀ a b, add64 a b < 2 ^ 64 := fun a b => Nat.mod_lt _ (Nat.two_pow_pos 64)
  have hsub : ∀ a b, sub64 a b < 2 ^ 64 := fun a b => Nat.mod_lt _ (Nat.two_pow_pos 64)
  have hcount :
      CellFits (gridX s) (workloadPrintableCommaString (gridX s + 1) (s.disks d).assignFileCount 1000) := by
    have hle : (s.disks d).assignFileCount ≤ s.fileHead.length :=
      (hseats.count d hd).trans_le (hseats.length_le hd)
    obtain ⟨text, htext⟩ := (printable_thousand_iff (show 7 ≤ gridX s + 1 by omega) hwidth
      (hle.trans_lt hfiles)).mpr (Or.inl (by omega))
    exact ⟨text, htext, Nat.le_of_succ_le_succ (printable_length hwidth (by omega) htext)⟩
  -- the cells that always fit
  have hidle := timeCell_fits hseven (by omega) (hsub s.timeStamp (s.disks d).timeStamp)
  have hfake : ∀ cell ∈ (if s.useFakeoff then [fakeCell s d] else []), CellFits (gridX s) cell := by
    intro cell hcell
    split_ifs at hcell
    · rw [List.mem_singleton.mp hcell]
      exact fakeCell_fits hseven (by omega)
    · exact absurd hcell List.not_mem_nil
  have hcolumn : ColumnFits s d ↔ ∀ cell ∈ diskCells s d r w, CellFits (gridX s) cell := by
    unfold ColumnFits diskColumn
    rw [hcounts]
    constructor
    · rintro ⟨cells, hcells, hall⟩
      obtain rfl : diskCells s d r w = cells := Option.some.inj hcells
      exact hall
    · exact fun hall => ⟨_, rfl, hall⟩
  rw [hcolumn, ← hpart, diskPart, shareFits_cells hwidth (hlt _ _), shareFits_cells hwidth (hlt _ _)]
  unfold diskCells diskUsage
  rw [List.forall_mem_append]
  simp only [List.forall_mem_cons]
  constructor
  · rintro ⟨⟨-, husage, hratio, husage', hratio', -⟩, -⟩
    exact ⟨⟨husage, hratio⟩, husage', hratio'⟩
  · rintro ⟨⟨husage, hratio⟩, husage', hratio'⟩
    exact ⟨⟨hcount, husage, hratio, husage', hratio', hidle, nofun⟩, hfake⟩

/-- **The cells of a disk fit its column**, in every state of every run, exactly when the parts of the accesses
    that the disk and its files have counted do. -/
theorem column_fits {env : LoadEnv} {doc : Document} {s₀ s s' : State} (hidle : Idle s₀)
    (hload : loadObjects env doc s₀ = .ok s) {secs : List Section}
    (hsecs : Along Section.run SectionValid s secs) (hs' : exec Section.run s secs = s')
    (hname : s'.maxNameSize + 1 < 2 ^ 64) {d : DiskPtr} (hd : d ∈ s'.diskHead) :
    ColumnFits s' d ↔ ShareFits s' (diskPart s' d) ∧ ShareFits s' (filesPart s' d) := by
  have hprepared := (loadObjects_ok hidle hload).1
  have hinit : Anchored s ∧ s.fileHead.length < 2 ^ 64 := by
    refine ⟨hprepared.anchored, ?_⟩
    have hle := hprepared.fileHead_le.trans hprepared.filecount_le
    unfold defWorkloadConfigMaxFiles at hle
    omega
  obtain ⟨hanchored, hfiles⟩ : Anchored s' ∧ s'.fileHead.length < 2 ^ 64 := by
    have hstep : ∀ s sec, Anchored s ∧ s.fileHead.length < 2 ^ 64 → SectionValid s sec →
        Anchored (sec.run s) ∧ (sec.run s).fileHead.length < 2 ^ 64 :=
      fun s sec h hok => ⟨h.1.step hok, (section_chains s sec).1 ▸ h.2⟩
    rw [← hs']
    exact @exec_invariant _ _ Section.run SectionValid _ hstep _ _ hinit hsecs
  refine hanchored.columnFits_iff hfiles ?_ hd
  unfold gridX
  split_ifs
  · decide
  · exact hname

/-- A load from the assignment loop on, until its services are ready; then the counters are reset, and the first
    file is read. -/
def smallShare : List Section :=
  [.moveOut 0 0 smallMove, .linkIn 0 0, .moved 0 0 none, .moveOut 1 1 smallMove, .linkIn 1 1, .moved 1 1 none,
    .index (smallEnv [] small_fits none), .start (smallEnv [] small_fits none)] ++
    (List.replicate 6 (.service 0 smallService) ++ List.replicate 6 (.service 1 smallService)) ++
    [.reset, .access 0 1 0]

theorem smallShare_valid : Along Section.run SectionValid smallPrepared smallShare := by
  have hservices : ∀ s, Along Section.run SectionValid s
      (List.replicate 6 (.service 0 smallService) ++ List.replicate 6 (.service 1 smallService)) := fun _ =>
    ⟨trivial, trivial, trivial, trivial, trivial, trivial, trivial, trivial, trivial, trivial, trivial, trivial,
      trivial⟩
  refine (along_append _ _ _).mpr ⟨(along_append _ _ _).mpr ⟨⟨show 0 ∈ _ from ?_, ⟨?_, ?_, ?_⟩, trivial,
    show 1 ∈ _ from ?_, ⟨?_, ?_, ?_⟩, trivial, trivial, trivial, trivial⟩, hservices _⟩, trivial,
    show 0 ∈ _ from ?_, trivial⟩ <;> unfold smallPrepared <;> decide +kernel

/-- Behind that run. -/
theorem column_fits_small :
    let s := exec Section.run smallPrepared smallShare
    ColumnFits s 0 ↔ ShareFits s (diskPart s 0) ∧ ShareFits s (filesPart s 0) := by
  intro s
  have hstate : s.maxNameSize + 1 < 2 ^ 64 ∧ 0 ∈ s.diskHead := by
    unfold s smallPrepared
    decide +kernel
  exact @column_fits _ _ _ _ _ (idle_init _ _ _ _) small_prepares _ smallShare_valid rfl hstate.1 0 hstate.2

/-- **All accesses on one disk**: its share is `100.000%`, eight characters in a column of seven. -/
theorem share_overflows :
    let s := exec Section.run smallPrepared smallShare
    Along Section.run SectionValid smallPrepared smallShare ∧ s.diskReadyCount = 2 ∧ gridX s = 7 ∧
      0 ∈ s.diskHead ∧ (∃ cells, diskColumn s 0 = some cells ∧ some "100.000%".toList ∈ cells) ∧
      ¬ ColumnFits s 0 := by
  intro s
  have hcolumn : diskColumn s 0 = some [some "1".toList, some "100.000%".toList, some "1".toList,
      some "100.000%".toList, some "1".toList, some "0.000s".toList] := by
    unfold s smallPrepared
    decide +kernel
  have hstate : s.diskReadyCount = 2 ∧ gridX s = 7 ∧ 0 ∈ s.diskHead := by
    unfold s smallPrepared
    decide +kernel
  refine ⟨smallShare_valid, hstate.1, hstate.2.1, hstate.2.2, ⟨_, hcolumn, by decide⟩, ?_⟩
  rintro ⟨cells, hcells, hall⟩
  obtain rfl := Option.some.inj (hcolumn.symm.trans hcells)
  obtain ⟨text, htext, hlen⟩ := hall (some "100.000%".toList) (by decide)
  obtain rfl := Option.some.inj htext
  rw [hstate.2.1] at hlen
  exact absurd hlen (by decide)

end Workload
