import Mathlib.Data.List.Find
import Mathlib.Data.List.TakeWhile
import Workload.Correctness.Outline

/-!
# `Correctness.Nodes` — what can be read from the tags

Reading from a tag on through `child` and `ordered` gives the trees of the table: the element of the tag and the
siblings behind it. Looking up a tag by its name, along whichever pointers the program does it, agrees with looking it
up in what can be read.

* **`readNode_eq`** — the node at a tag.
* `xmlSubTag_eq`, `xmlNextTag_eq` — the two steps the program takes.
-/

namespace Workload

open Memory Parents Tags

/-- The element of a row. -/
def rowXml (r : TagRow) (children : List Xml) : Xml :=
  .element (workloadCheckString r.name) r.attr r.txt children

/-- What can be read of trees. -/
def nodeOf (trees : List (Rose TagRow)) : Node := Rose.folds rowXml trees

theorem nodeOf_append (x y : List (Rose TagRow)) : nodeOf (x ++ y) = nodeOf x ++ nodeOf y := by
  unfold nodeOf
  induction x with
  | nil => rfl
  | cons r x ih => rw [List.cons_append, Rose.folds, ih, Rose.folds, List.cons_append]

variable {t : Table TagRow} {m : Heap Ezxml} {i j n p : Nat} {l : List Nat}

/-! ## Levels -/

/-- The siblings behind a row. -/
def after (t : Table TagRow) (i : Nat) : List Nat :=
  match parentAt t i with
  | none => []
  | some p => (kids t p).filter fun j => i < j

/-- A list of rows along `ordered`: each has the rest of the list behind it. -/
def Level (t : Table TagRow) (l : List Nat) : Prop :=
  ∀ front j rest, l = front ++ j :: rest → j < t.length ∧ after t j = rest

namespace Level

theorem suffix (h : Level t l) {l' : List Nat} (hsuffix : l' <:+ l) : Level t l' := by
  obtain ⟨before, rfl⟩ := hsuffix
  intro front j rest hl
  exact h (before ++ front) j rest (by rw [hl, List.append_assoc])

theorem head (h : Level t (j :: l)) : j < t.length ∧ after t j = l := h [] j l rfl

theorem tail (h : Level t (j :: l)) : Level t l := h.suffix (List.suffix_cons j l)

theorem nil : Level t [] := fun front j rest hl => absurd hl (by simp)

/-- The children of a row. -/
theorem kids (t : Table TagRow) (p : Nat) : Level t (kids t p) := by
  intro front j rest hl
  have hj : j ∈ Parents.kids t p := hl ▸ List.mem_append_right front List.mem_cons_self
  have hsorted := sorted_kids t p
  rw [hl] at hsorted
  refine ⟨lt_length_of_mem_kids hj, ?_⟩
  rw [after, mem_kids.mp hj]
  change (Parents.kids t p).filter _ = rest
  rw [hl]
  exact filter_lt_of_split hsorted

/-- A row and its siblings behind it. -/
theorem self (hi : i < t.length) : Level t (i :: after t i) := by
  cases hp : parentAt t i with
  | none =>
      have hafter : after t i = [] := by rw [after, hp]
      rw [hafter]
      intro front j rest hl
      cases front with
      | nil =>
          obtain ⟨rfl, rfl⟩ := List.cons.inj hl
          exact ⟨hi, hafter⟩
      | cons k front => exact absurd (List.cons.inj hl).2 (by simp)
  | some p =>
      obtain ⟨front, rest, hl⟩ := List.append_of_mem (mem_kids.mpr hp)
      have hrest := (Level.kids t p front i rest hl).2
      rw [hrest]
      exact (Level.kids t p).suffix ⟨front, hl.symm⟩

end Level

/-- `ordered` leads to the first one behind a row. -/
theorem ordered_eq (t : Table TagRow) (i : Nat) : (tagAt t i).ordered = (after t i).head? := by
  change (parentAt t i).bind (fun p => nextIn (kids t p) i) = _
  unfold after
  cases parentAt t i with
  | none => rfl
  | some p => rw [Option.bind_some, List.head?_filter, nextIn]

theorem lt_of_mem_after (h : j ∈ after t i) : i < j := by
  unfold after at h
  split at h
  · exact nomatch h
  · simpa using (List.mem_filter.mp h).2

/-! ## Reading -/

theorem nodeOf_tree (hroot : Rooted t) (hi : i < t.length) :
    nodeOf (tree t i) = [rowXml (rowAt t i) (nodeOf ((kids t i).flatMap (tree t)))] := by
  have hget := List.getElem?_eq_getElem hi
  rw [tree_eq hroot hget, rowAt, hget]
  rfl

theorem nodeOf_cons (hroot : Rooted t) (hi : i < t.length) (l : List Nat) :
    nodeOf ((i :: l).flatMap (tree t)) =
      rowXml (rowAt t i) (nodeOf ((kids t i).flatMap (tree t))) :: nodeOf (l.flatMap (tree t)) := by
  rw [List.flatMap_cons, nodeOf_append, nodeOf_tree hroot hi, List.singleton_append]

/-- **The node at a tag**: its element, and the siblings behind it. -/
theorem readNode_eq (h : Tagged m t) (hroot : Rooted t) (hl : Level t l) (hn : ∀ i ∈ l.head?, t.length - i ≤ n) :
    readNode m n l.head? = some (nodeOf (l.flatMap (tree t))) := by
  induction n generalizing l with
  | zero =>
      cases l with
      | nil =>
          rw [List.head?_nil, readNode]
          rfl
      | cons i l => exact absurd (hn i rfl) (by have := hl.head.1; omega)
  | succ n ih =>
      cases l with
      | nil =>
          rw [List.head?_nil, readNode]
          rfl
      | cons i l =>
          obtain ⟨hi, hafter⟩ := hl.head
          have hn := hn i rfl
          have hchildren := ih (Level.kids t i) fun j hj => by
            have hlt := hroot j i (mem_kids.mp (List.mem_of_head? hj))
            omega
          have hrest := ih hl.tail fun j hj => by
            have hlt := lt_of_mem_after (i := i) (hafter ▸ List.mem_of_head? hj)
            omega
          rw [List.head?_cons, readNode, h.2 i hi]
          simp only [Option.bind_eq_bind, Option.bind_some, ordered_eq, hafter, hrest]
          rw [show (tagAt t i).child = (kids t i).head? from rfl, hchildren, nodeOf_cons hroot hi]
          rfl

/-- With as much fuel as there are tags. -/
theorem readNode_size (h : Tagged m t) (hroot : Rooted t) (hl : Level t l) :
    readNode m m.size l.head? = some (nodeOf (l.flatMap (tree t))) :=
  readNode_eq h hroot hl fun _ _ => by
    rw [h.1]
    exact Nat.sub_le _ _

/-! ## Looking up names -/

/-- The name of a row does not fit. -/
def otherName (t : Table TagRow) (name : Text) (j : Nat) : Bool := workloadCheckString (rowAt t j).name != name

theorem seekNode_eq (hroot : Rooted t) (name : Text) (hl : Level t l) :
    seekNode name (nodeOf (l.flatMap (tree t))) = nodeOf ((l.dropWhile (otherName t name)).flatMap (tree t)) := by
  induction l with
  | nil => rfl
  | cons j l ih =>
      rw [nodeOf_cons hroot hl.head.1]
      by_cases hname : otherName t name j = true
      · rw [List.dropWhile_cons_of_pos hname, ← ih hl.tail]
        exact List.dropWhile_cons_of_pos hname
      · rw [List.dropWhile_cons_of_neg hname, nodeOf_cons hroot hl.head.1]
        exact List.dropWhile_cons_of_neg hname

theorem Level.dropWhile (h : Level t l) (p : Nat → Bool) : Level t (l.dropWhile p) :=
  h.suffix (List.dropWhile_suffix p)

/-- The loop along `ordered` stops at the first one with the name. -/
theorem orderedLoop_eq (h : Tagged m t) {name : Text} {k : Nat} (hl : Level t l)
    (hk : ∀ i ∈ l.head?, t.length - i ≤ k) :
    orderedLoop m name k l.head? = some (l.dropWhile (otherName t name)).head? := by
  induction l generalizing k with
  | nil => cases k <;> rfl
  | cons j l ih =>
      obtain ⟨hj, hafter⟩ := hl.head
      have hk := hk j rfl
      obtain ⟨k, rfl⟩ := Nat.exists_eq_add_one_of_ne_zero (by omega : k ≠ 0)
      rw [List.head?_cons, orderedLoop, h.2 j hj]
      simp only [Option.bind_eq_bind, Option.bind_some, ordered_eq, hafter]
      by_cases hname : workloadCheckString (rowAt t j).name = name
      · rw [if_pos (show workloadCheckString (tagAt t j).name = name from hname), List.dropWhile_cons_of_neg
          (by simpa [otherName] using hname), List.head?_cons]
      · rw [if_neg (show ¬workloadCheckString (tagAt t j).name = name from hname), List.dropWhile_cons_of_pos
          (by simpa [otherName] using hname)]
        refine ih hl.tail fun i hi => ?_
        have hlt := lt_of_mem_after (i := j) (hafter ▸ List.mem_of_head? hi)
        omega

theorem orderedLoop_size (h : Tagged m t) (hl : Level t l) (name : Text) :
    orderedLoop m name m.size l.head? = some (l.dropWhile (otherName t name)).head? :=
  orderedLoop_eq h hl fun _ _ => by
    rw [h.1]
    exact Nat.sub_le _ _

/-- The loop along `sibling` as well. -/
theorem siblingLoop_chain {name : Text} {k : Nat} {head : Option Nat} {l : List (Nat × Ezxml)}
    (hc : Chain Ezxml.sibling m head l) (hk : l.length ≤ k) :
    siblingLoop m name k head = some ((l.find? fun x => x.2.name = some name).map Prod.fst) := by
  induction l generalizing head k with
  | nil =>
      obtain rfl : head = none := hc
      cases k <;> rfl
  | cons x l ih =>
      obtain ⟨rfl, hread, hrest⟩ := hc
      obtain ⟨k, rfl⟩ := Nat.exists_eq_add_one_of_ne_zero (by rw [List.length_cons] at hk; omega : k ≠ 0)
      rw [siblingLoop, hread]
      simp only [Option.bind_eq_bind, Option.bind_some]
      by_cases hname : x.2.name = some name
      · rw [if_pos hname, List.find?_cons_of_pos (by simpa using hname), Option.map_some]
      · rw [if_neg hname, List.find?_cons_of_neg (by simpa using hname)]
        exact ih hrest (by rw [List.length_cons] at hk; omega)

/-- **The first child of a name**, found among the first children of the names, is the first one with that name. -/
theorem ezxmlChild_eq (h : Tagged m t) (hi : i < t.length) (hnamed : ∀ j ∈ kids t i, (rowAt t j).name ≠ none)
    (name : Text) : ezxmlChild m (some i) name = some ((kids t i).dropWhile (otherName t name)).head? := by
  have hkids : ∀ j ∈ heads TagRow.name t i, j ∈ kids t i := fun j => mem_kids_of_mem_heads
  have hkey : ∀ j ∈ kids t i, keyAt TagRow.name t j ≠ none := fun j hj => by
    rw [keyAt_eq (lt_length_of_mem_kids hj)]
    exact nofun
  have hhead : (heads TagRow.name t i).head? = (kids t i).head? := Firsts.head?_firsts hkey
  have hchain := chain_of_next (sorted_heads t i) (fun j hj => h.2 j (lt_length_of_mem_kids (hkids j hj)))
    fun j hj => (tagAt_of_mem_kids (hkids j hj)).2.2 hj
  have hlen : ((heads TagRow.name t i).map fun j => (j, tagAt t j)).length ≤ m.size := by
    rw [List.length_map, h.1]
    exact Firsts.firsts_sublist.length_le.trans (length_kids_le t i)
  have hfind : (heads TagRow.name t i).find? (fun j => (tagAt t j).name = some name) =
      (kids t i).find? (fun j => !otherName t name j) := by
    have hfirst : (heads TagRow.name t i).find? (fun j => decide (keyAt TagRow.name t j = some (some name))) =
        (alike TagRow.name t i (some (some name))).head? := find?_heads
    have hown : ∀ j ∈ kids t i, keyAt TagRow.name t j = some (rowAt t j).name := fun j hj =>
      keyAt_eq (lt_length_of_mem_kids hj)
    rw [alike, List.head?_filter] at hfirst
    refine ((List.find?_congr fun j hj => ?_).trans hfirst).trans (List.find?_congr fun j hj => ?_)
    · rw [hown j (hkids j hj)]
      simp only [Option.some_inj]
      rfl
    · obtain ⟨own, hname⟩ := Option.ne_none_iff_exists'.mp (hnamed j hj)
      rw [hown j hj, otherName, hname, Bool.eq_iff_iff]
      simp
  rw [ezxmlChild, h.2 i hi]
  simp only [Option.bind_eq_bind, Option.bind_some]
  rw [show (tagAt t i).child = (kids t i).head? from rfl, ← hhead, siblingLoop_chain hchain hlen, List.find?_map,
    Option.map_map]
  change some (Option.map id ((heads TagRow.name t i).find? fun j => (tagAt t j).name = some name)) = _
  rw [Option.map_id, hfind, List.find?_not_eq_head?_dropWhile]
  rfl

/-- **A sub node** of the node at a tag. -/
theorem xmlSubTag_eq (h : Tagged m t) (hroot : Rooted t) (hl : Level t (i :: l))
    (hnamed : ∀ j ∈ kids t i, (rowAt t j).name ≠ none) (name : Text) : ∃ l', Level t l' ∧
      xmlSubTag m (some i) name = some l'.head? ∧
      workloadXmlSubNodeEx (nodeOf ((i :: l).flatMap (tree t))) name = nodeOf (l'.flatMap (tree t)) := by
  refine ⟨_, (Level.kids t i).dropWhile (otherName t name), ezxmlChild_eq h hl.head.1 hnamed name, ?_⟩
  rw [nodeOf_cons hroot hl.head.1]
  exact seekNode_eq hroot name (Level.kids t i)

/-- **The next node** of the node at a tag. -/
theorem xmlNextTag_eq (h : Tagged m t) (hroot : Rooted t) (hl : Level t (i :: l)) (name : Text) :
    ∃ l', Level t l' ∧ xmlNextTag m (some i) name = some l'.head? ∧
      workloadXmlNextNodeEx (nodeOf ((i :: l).flatMap (tree t))) name = nodeOf (l'.flatMap (tree t)) := by
  obtain ⟨hi, hafter⟩ := hl.head
  refine ⟨_, hl.tail.dropWhile (otherName t name), ?_, ?_⟩
  · rw [xmlNextTag, h.2 i hi]
    simp only [Option.bind_eq_bind, Option.bind_some, ordered_eq, hafter]
    exact orderedLoop_size h hl.tail name
  · rw [nodeOf_cons hroot hi]
    exact seekNode_eq hroot name hl.tail

end Workload
