import Workload.Correctness.Tags

/-!
# `Correctness.Outline` — the handlers of the parser on tables

An `Outline` is what the handlers make of a document when the tags in memory are read as a table: rows, and the row
of the tag that is open. Each handler on pointers keeps the tags a table and does what the handler on outlines does
(`Keeps`). A tag is added at the end of the text that is there, so the offsets along a chain never fall and the new tag
comes last.
-/

namespace Workload

open Memory Parents Tags

/-- The tags of a document, and the one that is open. -/
structure Outline where
  rows : Table TagRow
  cur : Option Nat

namespace Outline

/-- Only the root tag is without a parent; no tag stands behind the text of its parent; a tag that has no name yet
    is alone. -/
structure Valid (o : Outline) : Prop where
  pos : 0 < o.rows.length
  rooted : Rooted o.rows
  cur : ∀ c ∈ o.cur, c < o.rows.length
  parent : ∀ i, 0 < i → i < o.rows.length → parentAt o.rows i ≠ none
  placed : ∀ i p, parentAt o.rows i = some p → (rowAt o.rows i).off ≤ (rowAt o.rows p).txt.length
  named : ∀ i < o.rows.length, (rowAt o.rows i).name = none → o.rows.length = 1

/-- The only tag is the root tag, which has no name yet. -/
def start : Outline := ⟨[(none, ⟨none, [], [], 0⟩)], some 0⟩

def openTag (o : Outline) (name : Text) (attr : List (Text × Text)) : Outline :=
  match o.cur with
  | none => o
  | some c =>
      if (rowAt o.rows c).name = none then { o with rows := edit o.rows c fun r => { r with name := some name, attr } }
      else ⟨push o.rows c ⟨some name, attr, [], (rowAt o.rows c).txt.length⟩, some o.rows.length⟩

def closeTag (o : Outline) : Outline := { o with cur := o.cur.bind (parentAt o.rows) }

def addText (o : Outline) (s : Text) : Outline :=
  match o.cur with
  | none => o
  | some c => { o with rows := edit o.rows c fun r => { r with txt := r.txt ++ s } }

/-- The name of the tag that is open. -/
def curName (o : Outline) : Option Text := o.cur.bind fun c => (rowAt o.rows c).name

variable {o : Outline} {c : Nat} {name : Text} {attr : List (Text × Text)} {s : Text}

theorem addText_of_cur (hc : o.cur = some c) :
    o.addText s = { o with rows := edit o.rows c fun r => { r with txt := r.txt ++ s } } := by
  rw [addText, hc]

@[simp] theorem addText_nil (o : Outline) : o.addText [] = o := by
  unfold addText
  split
  · rfl
  · simp only [List.append_nil, edit]
    rw [show (fun r : Option Nat × TagRow => (r.1, r.2)) = id from rfl, List.modify_id]

theorem openTag_of_named (hc : o.cur = some c) (hnamed : (rowAt o.rows c).name ≠ none) : o.openTag name attr =
    ⟨push o.rows c ⟨some name, attr, [], (rowAt o.rows c).txt.length⟩, some o.rows.length⟩ := by
  rw [openTag, hc]
  exact if_neg hnamed

theorem openTag_of_unnamed (hc : o.cur = some c) (hnone : (rowAt o.rows c).name = none) : o.openTag name attr =
    { o with rows := edit o.rows c fun r => { r with name := some name, attr } } := by
  rw [openTag, hc]
  exact if_pos hnone

theorem valid_start : start.Valid where
  pos := Nat.one_pos
  rooted i p h := by
    obtain rfl | hi := Nat.eq_zero_or_pos i
    · exact absurd h (Option.some_ne_none p).symm
    · rw [parentAt, List.getElem?_eq_none (by exact hi)] at h
      exact absurd h (Option.some_ne_none p).symm
  cur c hc := Option.some.inj hc ▸ Nat.one_pos
  parent i hi hlt := absurd hi (Nat.not_lt_of_le (Nat.le_of_lt_succ hlt))
  placed i p h := by
    obtain rfl | hi := Nat.eq_zero_or_pos i
    · exact absurd h (Option.some_ne_none p).symm
    · rw [parentAt, List.getElem?_eq_none (by exact hi)] at h
      exact absurd h (Option.some_ne_none p).symm
  named _ _ _ := rfl

theorem Valid.closeTag (h : o.Valid) : o.closeTag.Valid where
  pos := h.pos
  rooted := h.rooted
  cur p hp := by
    obtain ⟨c, hc, hparent⟩ := Option.bind_eq_some_iff.mp hp
    exact (h.rooted c p hparent).trans (h.cur c hc)
  parent := h.parent
  placed := h.placed
  named := h.named

/-- Texts that only get longer keep the tags in their places. -/
theorem Valid.edit (h : o.Valid) {f : TagRow → TagRow} (hc : c < o.rows.length) (hoff : ∀ r, (f r).off = r.off)
    (htxt : ∀ r, r.txt.length ≤ (f r).txt.length) (hname : ∀ r, (f r).name = none → r.name = none) :
    Valid { o with rows := edit o.rows c f } where
  pos := by rw [length_edit]; exact h.pos
  rooted := rooted_edit h.rooted
  cur c hc := by rw [length_edit]; exact h.cur c hc
  parent i hi hlt := by
    rw [length_edit] at hlt
    rw [parentAt_edit]
    exact h.parent i hi hlt
  placed i p hp := by
    rw [parentAt_edit] at hp
    have hplaced := h.placed i p hp
    have hrow : (rowAt (Parents.edit o.rows c f) i).off = (rowAt o.rows i).off := by
      by_cases hic : i = c
      · rw [hic, rowAt_edit hc, hoff]
      · rw [rowAt_edit_of_ne hic]
    rw [hrow]
    by_cases hpc : p = c
    · subst hpc
      rw [rowAt_edit hc]
      exact hplaced.trans (htxt _)
    · rwa [rowAt_edit_of_ne hpc]
  named i hi hnone := by
    rw [length_edit] at hi ⊢
    by_cases hic : i = c
    · subst hic
      rw [rowAt_edit hc] at hnone
      exact h.named i hi (hname _ hnone)
    · rw [rowAt_edit_of_ne hic] at hnone
      exact h.named i hi hnone

theorem Valid.addText (h : o.Valid) : (o.addText s).Valid := by
  unfold Outline.addText
  split
  · exact h
  · next c hc =>
    refine h.edit (h.cur c hc) (fun _ => rfl) (fun r => ?_) fun _ => id
    exact List.length_append.ge.trans' (Nat.le_add_right _ _)

theorem Valid.push (h : o.Valid) (hc : c < o.rows.length) (hnamed : (rowAt o.rows c).name ≠ none) :
    Valid ⟨push o.rows c ⟨some name, attr, [], (rowAt o.rows c).txt.length⟩, some o.rows.length⟩ where
  pos := by rw [length_push]; exact Nat.succ_pos _
  rooted := rooted_push h.rooted hc
  cur i hi := by
    obtain rfl := Option.some.inj hi
    rw [length_push]
    exact Nat.lt_succ_self _
  parent i hi hlt := by
    rw [length_push] at hlt
    rcases Nat.lt_succ_iff_lt_or_eq.mp hlt with hlt | rfl
    · rw [parentAt_push_of_lt hlt]
      exact h.parent i hi hlt
    · rw [parentAt_push]
      exact nofun
  placed i p hp := by
    have hi : i < o.rows.length + 1 := by
      rw [← length_push]
      exact lt_length_of_mem_kids (mem_kids.mpr hp)
    rcases Nat.lt_succ_iff_lt_or_eq.mp hi with hi | rfl
    · rw [parentAt_push_of_lt hi] at hp
      rw [rowAt_push_of_lt hi, rowAt_push_of_lt ((h.rooted i p hp).trans hi)]
      exact h.placed i p hp
    · rw [parentAt_push] at hp
      obtain rfl := Option.some.inj hp
      rw [rowAt_push, rowAt_push_of_lt hc]
  named i hi hnone := by
    rw [length_push] at hi
    rcases Nat.lt_succ_iff_lt_or_eq.mp hi with hi | rfl
    · rw [rowAt_push_of_lt hi] at hnone
      have hone := h.named i hi hnone
      obtain rfl : i = c := by omega
      exact absurd hnone hnamed
    · rw [rowAt_push] at hnone
      exact nomatch hnone

theorem Valid.openTag (h : o.Valid) : (o.openTag name attr).Valid := by
  unfold Outline.openTag
  split
  · exact h
  · next c hc =>
    split_ifs with hnone
    · exact h.edit (h.cur c hc) (fun _ => rfl) (fun _ => le_rfl) nofun
    · exact h.push (h.cur c hc) hnone

end Outline

/-! ## The tags in memory -/

/-- **The tags in memory are those of an outline.** -/
structure Keeps (root : EzxmlRoot) (o : Outline) : Prop where
  tagged : Tagged root.heap o.rows
  cur : root.cur = o.cur
  valid : o.Valid

namespace Keeps

variable {root : EzxmlRoot} {o : Outline} {c : Nat} {name : Text} {attr : List (Text × Text)} {s : Text}

theorem start : Keeps ezxmlNew Outline.start where
  tagged := ⟨rfl, fun i hi => by
    obtain rfl : i = 0 := Nat.lt_one_iff.mp hi
    rfl⟩
  cur := rfl
  valid := Outline.valid_start

/-- The cell of the tag that is open. -/
theorem read (h : Keeps root o) (hc : o.cur = some c) : root.heap.read c = some (tagAt o.rows c) :=
  h.tagged.2 c (h.valid.cur c hc)

/-- The first tag names the root tag. -/
theorem nameRoot (h : Keeps root o) (name : Text) (attr : List (Text × Text)) (hc : o.cur = some c)
    (hnone : (rowAt o.rows c).name = none) :
    ∃ m m', setTag root.heap c (fun x => { x with name := some name }) = some m ∧
      setTag m c (fun x => { x with attr := attr }) = some m' ∧
      Tagged m' (edit o.rows c fun r => { r with name := some name, attr := attr }) := by
  have hlt := h.valid.cur c hc
  have hone := h.valid.named c hlt hnone
  have hparent : parentAt o.rows c = none := by
    rw [Option.eq_none_iff_forall_ne_some]
    intro p hp
    have := h.valid.rooted c p hp
    omega
  obtain ⟨m, hset, h₁⟩ := Reads.set h.tagged hlt fun x => { x with name := some name }
  obtain ⟨m', hset', h₂⟩ := h₁.set hlt fun x => { x with attr := attr }
  refine ⟨m, m', hset, hset', h₂.1.trans length_edit.symm, fun i hi => ?_⟩
  rw [length_edit] at hi
  obtain rfl : i = c := by omega
  rw [h₂.2 i hlt, tagAt_edit_of_root hlt hparent, Function.update_self, Function.update_self]
  rfl

/-- Every other tag is added to the one that is open. -/
theorem addTag (h : Keeps root o) (name : Text) (attr : List (Text × Text)) (hc : o.cur = some c) :
    ∃ m m', ezxmlAddChild root.heap c name (tagAt o.rows c).txt.length = some (o.rows.length, m) ∧
      setTag m o.rows.length (fun x => { x with attr := attr }) = some m' ∧
      Tagged m' (push o.rows c ⟨some name, attr, [], (rowAt o.rows c).txt.length⟩) := by
  have hlt := h.valid.cur c hc
  obtain ⟨m, hadd, h₁⟩ : ∃ m, ezxmlAddChild root.heap c name (tagAt o.rows c).txt.length = some (o.rows.length, m) ∧
      Tagged m (push o.rows c ⟨some name, [], [], (rowAt o.rows c).txt.length⟩) :=
    ezxmlAddChild_eq h.tagged h.valid.rooted hlt fun j hj => h.valid.placed j c (mem_kids.mp hj)
  have hnew : o.rows.length < (push o.rows c ⟨some name, [], [], (rowAt o.rows c).txt.length⟩).length := by
    rw [length_push]
    exact Nat.lt_succ_self _
  obtain ⟨m', hset, h₂⟩ := Tagged.edit (f := fun r => { r with attr := attr }) h₁ hnew (fun _ => rfl)
    (F := fun x => { x with attr := attr }) rfl
  rw [edit_push] at h₂
  exact ⟨m, m', hadd, hset, h₂⟩

theorem openTag (h : Keeps root o) (hc : o.cur ≠ none) :
    ∃ root', ezxmlOpenTag root name attr = some root' ∧ root'.pi = root.pi ∧ root'.err = root.err ∧
      Keeps root' (o.openTag name attr) := by
  obtain ⟨c, hc⟩ := Option.ne_none_iff_exists'.mp hc
  have hvalid : (o.openTag name attr).Valid := h.valid.openTag
  unfold Outline.openTag at hvalid ⊢
  unfold ezxmlOpenTag
  simp only [h.cur, hc, Option.bind_eq_bind, Option.bind_some, h.read hc] at hvalid ⊢
  by_cases hnone : (rowAt o.rows c).name = none
  · obtain ⟨m, m', hset, hset', htagged⟩ := h.nameRoot name attr hc hnone
    rw [if_pos hnone] at hvalid ⊢
    refine ⟨{ root with heap := m', cur := some c }, ?_, rfl, rfl, htagged, rfl, hvalid⟩
    rw [if_pos (show (tagAt o.rows c).name = none from hnone)]
    simp only [hset, hset', Option.bind_some]
  · obtain ⟨m, m', hadd, hset, htagged⟩ := h.addTag name attr hc
    rw [if_neg hnone] at hvalid ⊢
    refine ⟨{ root with heap := m', cur := some o.rows.length }, ?_, rfl, rfl, htagged, rfl, hvalid⟩
    rw [if_neg (show ¬(tagAt o.rows c).name = none from hnone)]
    simp only [hadd, hset, Option.bind_some]

theorem closeTag (h : Keeps root o) (hc : o.curName = some name) :
    ezxmlCloseTag root name = some (.inl { root with cur := o.closeTag.cur }) ∧
      Keeps { root with cur := o.closeTag.cur } o.closeTag := by
  refine ⟨?_, h.tagged, rfl, h.valid.closeTag⟩
  obtain ⟨c, hcur, hname⟩ := Option.bind_eq_some_iff.mp hc
  unfold ezxmlCloseTag Outline.closeTag
  rw [h.cur, hcur]
  simp only [Option.bind_eq_bind, Option.bind_some, h.read hcur]
  rw [if_pos (show (tagAt o.rows c).name = some name from hname)]
  rfl

theorem closeTag_error (h : Keeps root o) (hc : o.curName ≠ some name) :
    ezxmlCloseTag root name =
      some (.inr (ezxmlErr root ("unexpected closing tag </".toList ++ name ++ ">".toList))) := by
  unfold ezxmlCloseTag
  rw [h.cur]
  cases hcur : o.cur with
  | none => rfl
  | some c =>
      have hname : ¬(tagAt o.rows c).name = some name := by
        rwa [Outline.curName, hcur] at hc
      simp only [Option.bind_eq_bind, Option.bind_some, h.read hcur]
      rw [if_neg hname]

theorem takesContent_eq (h : Keeps root o) : takesContent root = some o.curName.isSome := by
  unfold takesContent Outline.curName
  rw [h.cur]
  cases hcur : o.cur with
  | none => rfl
  | some c =>
      simp only [Option.bind_eq_bind, Option.bind_some, h.read hcur]
      rfl

theorem addContent_eq (h : Keeps root o) (hc : o.cur = some c) :
    ∃ root', addContent root s = some root' ∧ root'.pi = root.pi ∧ root'.err = root.err ∧
      Keeps root' (o.addText s) := by
  have hvalid := h.valid.addText (s := s)
  obtain ⟨m, hset, htagged⟩ := h.tagged.edit (f := fun r => { r with txt := r.txt ++ s }) (h.valid.cur c hc)
    (fun _ => rfl) (F := fun x => { x with txt := x.txt ++ s }) rfl
  unfold Outline.addText at hvalid ⊢
  unfold addContent
  simp only [h.cur, hc, Option.bind_eq_bind, Option.bind_some, hset] at hvalid ⊢
  exact ⟨_, rfl, rfl, rfl, htagged, rfl, hvalid⟩

end Keeps

end Workload
