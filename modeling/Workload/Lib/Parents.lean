import Mathlib.Algebra.BigOperators.Group.Finset.Piecewise
import Workload.Lib.Firsts
import Workload.Lib.Memory

/-!
# `Lib.Parents` — trees as tables of rows that name their parent

A table lists the nodes of a tree in the order they were added; a row holds the number of its parent and a value.
A new row is the last child of its parent (`push`), and what a row holds may change (`edit`). `tree t p` reads the
tree below a row. The rows below a parent are chained in three ways: all of them, those with one key, and the first
one of every key; a row added at the end prolongs each chain at its end.

* `Grown` — below one row a table has got more rows, all others are as they were; it composes.
* **`tree_of_grown`** — trees that were complete stay as they are.
* `chain_of_next` — pointers that lead to the next number in a list chain the list.
-/

namespace Parents

variable {α κ : Type*}

/-- The parent of a row, and what it holds. -/
abbrev Table (α : Type*) := List (Option Nat × α)

inductive Rose (α : Type*) where
  | node (value : α) (children : List (Rose α))

section Fold

variable {β : Type*} (f : α → List β → β)

mutual

/-- What `f` makes of a tree, from the leaves up. -/
def Rose.fold : Rose α → β
  | .node value children => f value (Rose.folds children)

def Rose.folds : List (Rose α) → List β
  | [] => []
  | r :: rs => Rose.fold r :: Rose.folds rs

end

end Fold

def parentAt (t : Table α) (i : Nat) : Option Nat := t[i]?.bind Prod.fst

/-- The rows below a row, in the order they were added. -/
def kids (t : Table α) (p : Nat) : List Nat := (List.range t.length).filter fun i => parentAt t i == some p

/-- Parents are older than their children. -/
def Rooted (t : Table α) : Prop := ∀ i p, parentAt t i = some p → p < i

def push (t : Table α) (c : Nat) (a : α) : Table α := t ++ [(some c, a)]

def edit (t : Table α) (i : Nat) (f : α → α) : Table α := t.modify i fun r => (r.1, f r.2)

/-- The tree at a row, as a list of one; rows further down than `fuel` are left out. -/
def grow (t : Table α) : Nat → Nat → List (Rose α)
  | 0, _ => []
  | fuel + 1, p =>
      match t[p]? with
      | none => []
      | some r => [.node r.2 ((kids t p).flatMap (grow t fuel))]

def tree (t : Table α) (p : Nat) : List (Rose α) := grow t t.length p

variable {t t' t'' : Table α} {c i p n : Nat} {a : α} {f : α → α}

/-! ## Rows -/

theorem mem_kids : i ∈ kids t p ↔ parentAt t i = some p := by
  unfold kids
  rw [List.mem_filter, List.mem_range, beq_iff_eq, and_iff_right_iff_imp]
  intro h
  by_contra hlt
  rw [parentAt, List.getElem?_eq_none (Nat.not_lt.mp hlt)] at h
  exact nomatch h

theorem lt_length_of_mem_kids (h : i ∈ kids t p) : i < t.length :=
  List.mem_range.mp (List.mem_of_mem_filter h)

theorem length_kids_le (t : Table α) (p : Nat) : (kids t p).length ≤ t.length := by
  unfold kids
  exact (List.length_filter_le _ _).trans List.length_range.le

theorem sorted_kids (t : Table α) (p : Nat) : (kids t p).Pairwise (· < ·) := List.pairwise_lt_range.filter _

@[simp] theorem length_push : (push t c a).length = t.length + 1 := List.length_append

theorem getElem?_push_of_lt (hi : i < t.length) : (push t c a)[i]? = t[i]? := List.getElem?_append_left hi

@[simp] theorem getElem?_push : (push t c a)[t.length]? = some (some c, a) := List.getElem?_concat_length

theorem parentAt_push_of_lt (hi : i < t.length) : parentAt (push t c a) i = parentAt t i := by
  rw [parentAt, getElem?_push_of_lt hi, parentAt]

@[simp] theorem parentAt_push : parentAt (push t c a) t.length = some c := by
  rw [parentAt, getElem?_push, Option.bind_some]

/-- A new row is the last child of its parent. -/
theorem kids_push : kids (push t c a) p = kids t p ++ if c = p then [t.length] else [] := by
  unfold kids
  rw [length_push, List.range_succ, List.filter_append]
  refine congrArg₂ _ (List.filter_congr fun i hi => ?_) ?_
  · rw [parentAt_push_of_lt (List.mem_range.mp hi)]
  · rw [List.filter_singleton, parentAt_push, Bool.cond_eq_ite]
    simp only [beq_iff_eq, Option.some_inj]

theorem rooted_push (h : Rooted t) (hc : c < t.length) : Rooted (push t c a) := by
  intro i p hp
  rcases Nat.lt_trichotomy i t.length with hi | rfl | hi
  · rw [parentAt_push_of_lt hi] at hp
    exact h i p hp
  · rw [parentAt_push] at hp
    exact Option.some.inj hp ▸ hc
  · rw [parentAt, List.getElem?_eq_none (by rw [length_push]; omega)] at hp
    exact nomatch hp

@[simp] theorem length_edit : (edit t i f).length = t.length := List.length_modify ..

theorem getElem?_edit_of_ne (h : i ≠ p) : (edit t i f)[p]? = t[p]? := List.getElem?_modify_ne _ _ h

theorem getElem?_edit {r : Option Nat × α} (h : t[i]? = some r) : (edit t i f)[i]? = some (r.1, f r.2) := by
  rw [edit, List.getElem?_modify_eq, h]
  rfl

@[simp] theorem parentAt_edit : parentAt (edit t i f) p = parentAt t p := by
  unfold parentAt
  by_cases hp : i = p
  · subst hp
    unfold edit
    rw [List.getElem?_modify_eq]
    cases t[i]? <;> rfl
  · rw [getElem?_edit_of_ne hp]

theorem edit_push : edit (push t c a) t.length f = push t c (f a) := by
  refine List.ext_getElem? fun j => ?_
  rcases Nat.lt_trichotomy j t.length with hj | rfl | hj
  · rw [getElem?_edit_of_ne hj.ne', getElem?_push_of_lt hj, getElem?_push_of_lt hj]
  · rw [getElem?_edit getElem?_push, getElem?_push]
  · rw [List.getElem?_eq_none (by rw [length_edit, length_push]; omega),
      List.getElem?_eq_none (by rw [length_push]; omega)]

@[simp] theorem kids_edit : kids (edit t i f) p = kids t p := by
  unfold kids
  simp only [length_edit, parentAt_edit]

theorem rooted_edit (h : Rooted t) : Rooted (edit t i f) := fun j p hp => h j p (by rwa [parentAt_edit] at hp)

/-! ## Trees -/

theorem grow_of_getElem? {r : Option Nat × α} {fuel : Nat} (h : t[p]? = some r) :
    grow t (fuel + 1) p = [.node r.2 ((kids t p).flatMap (grow t fuel))] := by
  rw [grow, h]

/-- Only the rows from `p` on matter. -/
theorem grow_congr {fuel : Nat} (hroot : Rooted t) (hp : p < t.length)
    (hsame : ∀ j, p ≤ j → j < t.length → t'[j]? = t[j]? ∧ kids t' j = kids t j) :
    grow t' fuel p = grow t fuel p := by
  induction fuel generalizing p with
  | zero => rfl
  | succ fuel ih =>
      have hrow : t[p]? = some t[p] := List.getElem?_eq_getElem hp
      rw [grow_of_getElem? hrow, grow_of_getElem? ((hsame p le_rfl hp).1.trans hrow), (hsame p le_rfl hp).2]
      refine congrArg (fun l => [Rose.node t[p].2 l]) (List.flatMap_congr fun j hj => ?_)
      have hlt : p < j := hroot j p (mem_kids.mp hj)
      exact ih (lt_length_of_mem_kids hj) fun k hk => hsame k (hlt.le.trans hk)

/-- As much fuel as there are rows behind `p` reads all of the tree. -/
theorem grow_of_le (hroot : Rooted t) {fuel fuel' : Nat} (h : t.length - p ≤ fuel) (h' : t.length - p ≤ fuel') :
    grow t fuel p = grow t fuel' p := by
  induction fuel generalizing p fuel' with
  | zero =>
      have hp : t[p]? = none := List.getElem?_eq_none (by omega)
      cases fuel' <;> simp [grow, hp]
  | succ fuel ih =>
      cases hrow : t[p]? with
      | none => cases fuel' <;> simp [grow, hrow]
      | some r =>
          obtain ⟨hp, -⟩ := List.getElem?_eq_some_iff.mp hrow
          obtain ⟨fuel', rfl⟩ := Nat.exists_eq_add_one_of_ne_zero (by omega : fuel' ≠ 0)
          rw [grow_of_getElem? hrow, grow_of_getElem? hrow]
          refine congrArg (fun l => [Rose.node r.2 l]) (List.flatMap_congr fun j hj => ?_)
          have hlt := hroot j p (mem_kids.mp hj)
          exact ih (by omega) (by omega)

/-- **The tree at a row**: what it holds, and the trees of its children. -/
theorem tree_eq (hroot : Rooted t) {r : Option Nat × α} (h : t[p]? = some r) :
    tree t p = [.node r.2 ((kids t p).flatMap (tree t))] := by
  have hgrow : grow t t.length p = grow t (t.length + 1) p := grow_of_le hroot (by omega) (by omega)
  rw [tree, hgrow, grow_of_getElem? h]
  rfl

/-! ## Counting -/

theorem sum_filter_range (p : Nat → Bool) (s : Nat → Nat) (n : Nat) :
    (((List.range n).filter p).map s).sum = ∑ i ∈ Finset.range n, if p i then s i else 0 := by
  induction n with
  | zero => rfl
  | succ n ih =>
      rw [List.range_succ, List.filter_append, List.map_append, List.sum_append, ih, Finset.sum_range_succ,
        List.filter_singleton, Bool.cond_eq_ite]
      split_ifs <;> simp

/-- When the rows older than `q` are taken away, the tree of `i` is one of those that are left. -/
def hangs (t : Table α) (q i : Nat) : Bool := decide (q ≤ i) && (parentAt t i).all fun p => decide (p < q)

/-- Taking away a row leaves the trees of its children. -/
theorem hangs_succ (hroot : Rooted t) (s : Nat → Nat) (q i : Nat) :
    (if hangs t (q + 1) i then s i else 0) + (if i = q then s i else 0) =
      (if hangs t q i then s i else 0) + if parentAt t i == some q then s i else 0 := by
  unfold hangs
  cases hp : parentAt t i with
  | none =>
      have hne : ((none : Option Nat) == some q) = false := rfl
      simp only [Option.all_none, Bool.and_true, decide_eq_true_eq, hne, Bool.false_eq_true, if_false]
      split_ifs <;> omega
  | some p =>
      have hlt := hroot i p hp
      simp only [Option.all_some, Bool.and_eq_true, decide_eq_true_eq, beq_iff_eq, Option.some_inj]
      split_ifs <;> omega

/-- **A weight that counts a row and the trees below it** counts every row once. -/
theorem sum_roots (hroot : Rooted t) {s : Nat → Nat} (hs : ∀ p < t.length, s p = 1 + ((kids t p).map s).sum) :
    (∑ i ∈ Finset.range t.length, if parentAt t i = none then s i else 0) = t.length := by
  have hstep : ∀ q ≤ t.length, (∑ i ∈ Finset.range t.length, if hangs t q i then s i else 0) = t.length - q := by
    intro q hq
    induction hq using Nat.decreasingInduction with
    | self =>
        rw [Nat.sub_self]
        refine Finset.sum_eq_zero fun i hi => if_neg ?_
        rw [hangs, decide_eq_false (Nat.not_le_of_lt (Finset.mem_range.mp hi)), Bool.false_and]
        exact Bool.false_ne_true
    | of_succ q hq ih =>
        -- the row `q` is one of those that are left, and takes the place of the trees of its children
        have hsum := Finset.sum_congr rfl fun i (_ : i ∈ Finset.range t.length) => hangs_succ hroot s q i
        rw [Finset.sum_add_distrib, Finset.sum_add_distrib, ih,
          Finset.sum_ite_eq' (Finset.range t.length) q s, if_pos (Finset.mem_range.mpr hq),
          ← sum_filter_range (fun i => parentAt t i == some q), ← kids, hs q hq] at hsum
        omega
  refine (Finset.sum_congr rfl fun i _ => ?_).trans (hstep 0 (Nat.zero_le _))
  unfold hangs
  cases hp : parentAt t i with
  | none => rfl
  | some p => rfl

/-! ## Ancestors -/

/-- From a row it takes `d` parents to get out of the table. -/
inductive Up (t : Table α) : Option Nat → Nat → Prop where
  | out : Up t none 0
  | row {p d : Nat} (h : Up t (parentAt t p) d) : Up t (some p) (d + 1)

namespace Up

variable {d : Nat} {o : Option Nat}

theorem congr (h : Up t o d) (hroot : Rooted t) (ho : ∀ p ∈ o, p < n)
    (hparent : ∀ i < n, parentAt t' i = parentAt t i) : Up t' o d := by
  induction h with
  | out => exact out
  | @row p d _ ih =>
      have hp := ho p rfl
      have hup : Up t' (parentAt t p) d := ih fun q hq => (hroot p q hq).trans hp
      rw [← hparent p hp] at hup
      exact hup.row

/-- A row has at most as many ancestors as there are rows before it. -/
theorem le_succ (h : Up t o d) (hroot : Rooted t) (ho : ∀ p ∈ o, p < n) : d ≤ n := by
  induction h generalizing n with
  | out => exact Nat.zero_le n
  | @row p d _ ih => exact (Nat.succ_le_succ (ih fun q hq => hroot p q hq)).trans (ho p rfl)

theorem edit (h : Up t o d) (hroot : Rooted t) (ho : ∀ p ∈ o, p < n) : Up (Parents.edit t c f) o d :=
  h.congr hroot ho fun _ _ => parentAt_edit

theorem push (h : Up t (some c) d) (hroot : Rooted t) (hc : c < t.length) :
    Up (Parents.push t c a) (some t.length) (d + 1) := by
  have hup : Up (Parents.push t c a) (some c) d :=
    h.congr hroot (fun p hp => Option.some.inj hp ▸ hc) fun i hi => parentAt_push_of_lt hi
  rw [← parentAt_push (t := t) (c := c) (a := a)] at hup
  exact hup.row

end Up

/-! ## Growing below a row -/

/-- Only the row `c` has changed, and got more children. -/
structure Grown (t t' : Table α) (c : Nat) : Prop where
  length_le : t.length ≤ t'.length
  row : ∀ i < t.length, i ≠ c → t'[i]? = t[i]?
  kids : ∀ i < t.length, i ≠ c → kids t' i = kids t i
  parent : parentAt t' c = parentAt t c
  rooted : Rooted t → Rooted t'

namespace Grown

theorem refl (t : Table α) (c : Nat) : Grown t t c :=
  ⟨le_rfl, fun _ _ _ => rfl, fun _ _ _ => rfl, rfl, id⟩

theorem trans (h : Grown t t' c) (h' : Grown t' t'' c) : Grown t t'' c where
  length_le := h.length_le.trans h'.length_le
  row i hi hc := (h'.row i (hi.trans_le h.length_le) hc).trans (h.row i hi hc)
  kids i hi hc := (h'.kids i (hi.trans_le h.length_le) hc).trans (h.kids i hi hc)
  parent := h'.parent.trans h.parent
  rooted hroot := h'.rooted (h.rooted hroot)

theorem edit (t : Table α) (c : Nat) (f : α → α) : Grown t (Parents.edit t c f) c where
  length_le := length_edit.ge
  row _ _ hc := getElem?_edit_of_ne (Ne.symm hc)
  kids _ _ _ := kids_edit
  parent := parentAt_edit
  rooted := rooted_edit

/-- A new row, and what has grown below it. -/
theorem of_push (hc : c < t.length) (h : Grown (push t c a) t' t.length) : Grown t t' c := by
  have hlen : t.length < (push t c a).length := by rw [length_push]; exact Nat.lt_succ_self _
  refine ⟨hlen.le.trans h.length_le, fun i hi _ => ?_, fun i hi hne => ?_, ?_, fun hroot => ?_⟩
  · exact (h.row i (hi.trans hlen) hi.ne).trans (getElem?_push_of_lt hi)
  · rw [h.kids i (hi.trans hlen) hi.ne, kids_push, if_neg (Ne.symm hne), List.append_nil]
  · rw [parentAt, h.row c (hc.trans hlen) hc.ne, getElem?_push_of_lt hc, parentAt]
  · exact h.rooted (rooted_push hroot hc)

end Grown

/-- **Trees behind the growing row** stay as they are. -/
theorem tree_of_grown (h : Grown t t' c) (hroot : Rooted t) (hcp : c < p) (hp : p < t.length) :
    tree t' p = tree t p := by
  have hgrow : grow t' t'.length p = grow t t'.length p := grow_congr hroot hp fun j hj hlt =>
    ⟨h.row j hlt (hcp.trans_le hj).ne', h.kids j hlt (hcp.trans_le hj).ne'⟩
  have hlen := h.length_le
  rw [tree, hgrow, tree]
  exact grow_of_le hroot (by omega) (by omega)

/-! ## Chains -/

/-- The next number in a list. -/
def nextIn (l : List Nat) (i : Nat) : Option Nat := l.find? fun j => i < j

theorem nextIn_concat (l : List Nat) (n i : Nat) :
    nextIn (l ++ [n]) i = (nextIn l i).or (if i < n then some n else none) := by
  unfold nextIn
  rw [List.find?_append, List.find?_singleton]
  simp only [decide_eq_true_eq]

theorem nextIn_of_split {l l' : List Nat} (h : (l ++ i :: l').Pairwise (· < ·)) :
    nextIn (l ++ i :: l') i = l'.head? := by
  obtain ⟨-, htail, hcross⟩ := List.pairwise_append.mp h
  have hfront : ∀ j ∈ l, ¬i < j := fun j hj => Nat.not_lt_of_le (hcross j hj i List.mem_cons_self).le
  have hback : ∀ j ∈ l', i < j := (List.pairwise_cons.mp htail).1
  unfold nextIn
  rw [List.find?_append, List.find?_eq_none.mpr fun j hj => by simpa using hfront j hj, Option.none_or,
    List.find?_cons_of_neg (by simp)]
  cases l' with
  | nil => rfl
  | cons j l' => rw [List.find?_cons_of_pos (by simpa using hback j List.mem_cons_self), List.head?_cons]

/-- Only the last number of a list has no next one. -/
theorem nextIn_eq_none (l : List Nat) : nextIn l i = none ↔ ∀ j ∈ l, j ≤ i := by
  unfold nextIn
  simp [List.find?_eq_none]

theorem nextIn_getLast {l : List Nat} (hsorted : l.Pairwise (· < ·)) (hi : l.getLast? = some i) :
    nextIn l i = none := by
  obtain ⟨front, rfl⟩ := List.getLast?_eq_some_iff.mp hi
  exact nextIn_of_split hsorted

/-- What is behind a number of a list. -/
theorem filter_lt_of_split {l l' : List Nat} (h : (l ++ i :: l').Pairwise (· < ·)) :
    (l ++ i :: l').filter (fun j => i < j) = l' := by
  obtain ⟨-, htail, hcross⟩ := List.pairwise_append.mp h
  have hfront : l.filter (fun j => i < j) = [] := List.filter_eq_nil_iff.mpr fun j hj => by
    simpa using (hcross j hj i List.mem_cons_self).le
  have hback : l'.filter (fun j => i < j) = l' := List.filter_eq_self.mpr fun j hj => by
    simpa using (List.pairwise_cons.mp htail).1 j hj
  rw [List.filter_append, hfront, List.nil_append, List.filter_cons_of_neg (by simp), hback]

open Memory in
/-- **Pointers to the next number** chain the list. -/
theorem chain_of_next {β : Type*} {next : β → Option Nat} {h : Heap β} {content : Nat → β} {l : List Nat}
    (hsorted : l.Pairwise (· < ·)) (hread : ∀ j ∈ l, h.read j = some (content j))
    (hnext : ∀ j ∈ l, next (content j) = nextIn l j) :
    Chain next h l.head? (l.map fun j => (j, content j)) := by
  suffices ∀ front back, l = front ++ back → Chain next h back.head? (back.map fun j => (j, content j)) from
    this [] l rfl
  intro front back hl
  induction back generalizing front with
  | nil => rfl
  | cons j back ih =>
      have hj : j ∈ l := hl ▸ List.mem_append_right front List.mem_cons_self
      refine ⟨rfl, hread j hj, ?_⟩
      have hhead : next (content j) = back.head? := by
        rw [hnext j hj, hl]
        exact nextIn_of_split (hl ▸ hsorted)
      rw [hhead]
      exact ih (front ++ [j]) (by rw [hl, List.append_assoc, List.singleton_append])

/-! ## Keys -/

section Keys

variable [DecidableEq κ] (key : α → κ)

def keyAt (t : Table α) (i : Nat) : Option κ := t[i]?.map fun r => key r.2

/-- The children with one key. -/
def alike (t : Table α) (p : Nat) (k : Option κ) : List Nat := (kids t p).filter fun i => keyAt key t i == k

/-- The first child with every key. -/
def heads (t : Table α) (p : Nat) : List Nat := Firsts.firsts (keyAt key t) (kids t p)

variable {key}

omit [DecidableEq κ] in
theorem keyAt_push_of_lt (hi : i < t.length) : keyAt key (push t c a) i = keyAt key t i := by
  rw [keyAt, getElem?_push_of_lt hi, keyAt]

omit [DecidableEq κ] in
@[simp] theorem keyAt_push : keyAt key (push t c a) t.length = some (key a) := by
  rw [keyAt, getElem?_push, Option.map_some]

theorem mem_alike {k : Option κ} : i ∈ alike key t p k ↔ i ∈ kids t p ∧ keyAt key t i = k := by
  rw [alike, List.mem_filter, beq_iff_eq]

theorem alike_push {k : Option κ} : alike key (push t c a) p k =
    alike key t p k ++ if c = p ∧ some (key a) = k then [t.length] else [] := by
  unfold alike
  rw [kids_push, List.filter_append]
  refine congrArg₂ _ (List.filter_congr fun i hi => ?_) ?_
  · rw [keyAt_push_of_lt (lt_length_of_mem_kids hi)]
  · by_cases hc : c = p
    · rw [if_pos hc, List.filter_singleton, keyAt_push, Bool.cond_eq_ite]
      simp only [beq_iff_eq, hc, true_and]
    · rw [if_neg hc, if_neg fun h => hc h.1, List.filter_nil]

/-- A new row is the first one with its key when no older child has the key. -/
theorem heads_push : heads key (push t c a) p =
    heads key t p ++ if c = p ∧ alike key t p (some (key a)) = [] then [t.length] else [] := by
  have hsame : Firsts.firsts (keyAt key (push t c a)) (kids t p) = heads key t p := by
    refine (Firsts.Agree.firsts_eq fun l i hi => Or.inl ?_).1
    exact keyAt_push_of_lt (lt_length_of_mem_kids (hi.subset List.mem_concat_self))
  by_cases hc : c = p
  · have hold : Firsts.Old (keyAt key (push t c a)) (kids t p) t.length ↔ ¬alike key t p (some (key a)) = [] := by
      unfold Firsts.Old alike
      rw [keyAt_push, List.filter_eq_nil_iff, List.mem_map]
      simp only [reduceCtorEq, false_or, beq_iff_eq, not_forall, not_not, exists_prop]
      refine exists_congr fun i => and_congr_right fun hi => ?_
      rw [keyAt_push_of_lt (lt_length_of_mem_kids hi)]
    rw [heads, kids_push, if_pos hc]
    by_cases hempty : alike key t p (some (key a)) = []
    · rw [Firsts.firsts_concat_of_new fun h => hold.mp h hempty, hsame, if_pos ⟨hc, hempty⟩]
    · rw [Firsts.firsts_concat_of_old (hold.mpr hempty), hsame, if_neg fun h => hempty h.2, List.append_nil]
  · rw [heads, kids_push, if_neg hc, if_neg fun h => hc h.1, List.append_nil, List.append_nil, hsame]

omit [DecidableEq κ] in
@[simp] theorem keyAt_edit (hf : ∀ a, key (f a) = key a) : keyAt key (edit t i f) p = keyAt key t p := by
  unfold keyAt
  by_cases hp : i = p
  · subst hp
    unfold edit
    rw [List.getElem?_modify_eq]
    cases t[i]? with
    | none => rfl
    | some r => exact congrArg some (hf r.2)
  · rw [getElem?_edit_of_ne hp]

theorem sorted_alike (t : Table α) (p : Nat) (k : Option κ) : (alike key t p k).Pairwise (· < ·) :=
  (sorted_kids t p).filter _

theorem sorted_heads (t : Table α) (p : Nat) : (heads key t p).Pairwise (· < ·) :=
  (sorted_kids t p).sublist Firsts.firsts_sublist

/-- The first child with a key is the first one of the chain of the key. -/
theorem find?_heads {k : κ} : (heads key t p).find? (fun j => decide (keyAt key t j = some k)) =
    (alike key t p (some k)).head? := by
  have hfirst : (Firsts.firsts (keyAt key t) (kids t p)).find? (fun j => keyAt key t j == some k) =
      ((kids t p).filter fun j => keyAt key t j == some k).head? := Firsts.find?_firsts
  simp only [beq_eq_decide] at hfirst
  unfold heads alike
  simp only [beq_eq_decide]
  exact hfirst

end Keys

end Parents
