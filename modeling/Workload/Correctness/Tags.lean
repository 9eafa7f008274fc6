import Workload.Lib.Parents
import Workload.Model.Ezxml

/-!
# `Correctness.Tags` — the tags of a document as a table

The tags in memory are the rows of a table (`Tagged`): a tag's parent and content are written in its row, and its
other pointers follow from the rows. `child` leads to the first child, `ordered` to the next child of the same parent,
`next` to the next one of the same name, and `sibling` from the first child of a name to the first child of the next
name. Putting a tag behind the others adds a row.
-/

namespace Workload

open Memory Parents

/-- What a tag holds besides its pointers. -/
structure TagRow where
  name : Option Text
  attr : List (Text × Text)
  txt : Text
  off : Nat

namespace Tags

variable {t : Table TagRow} {m : Heap Ezxml} {c i n p : Nat} {a : TagRow} {l : List Nat}

def rowAt (t : Table TagRow) (i : Nat) : TagRow := (t[i]?.map Prod.snd).getD ⟨none, [], [], 0⟩

/-- The tag of a row. -/
def tagAt (t : Table TagRow) (i : Nat) : Ezxml :=
  let r := rowAt t i
  { name := r.name, attr := r.attr, txt := r.txt, off := r.off
    next := (parentAt t i).bind fun p => nextIn (alike TagRow.name t p (keyAt TagRow.name t i)) i
    sibling := (parentAt t i).bind fun p =>
      if i ∈ heads TagRow.name t p then nextIn (heads TagRow.name t p) i else none
    ordered := (parentAt t i).bind fun p => nextIn (kids t p) i
    child := (kids t i).head?
    parent := parentAt t i }

/-- The cells up to `n` are these tags. -/
def Reads (m : Heap Ezxml) (n : Nat) (g : Nat → Ezxml) : Prop := m.size = n ∧ ∀ i < n, m.read i = some (g i)

/-- **The tags of a table.** -/
def Tagged (m : Heap Ezxml) (t : Table TagRow) : Prop := Reads m t.length (tagAt t)

/-! ## Reading and writing cells -/

section Reads

variable {g : Nat → Ezxml} {f : Ezxml → Ezxml}

theorem Reads.congr {g' : Nat → Ezxml} (h : Reads m n g) (hg : ∀ i < n, g' i = g i) : Reads m n g' :=
  ⟨h.1, fun i hi => (h.2 i hi).trans (congrArg some (hg i hi).symm)⟩

theorem Reads.set (h : Reads m n g) (hp : p < n) (f : Ezxml → Ezxml) :
    ∃ m', setTag m p f = some m' ∧ Reads m' n (Function.update g p (f (g p))) := by
  obtain ⟨m', hwrite, hsize, hread⟩ := Heap.write_eq (b := f (g p)) (h.2 p hp)
  refine ⟨m', ?_, hsize.trans h.1, fun i hi => ?_⟩
  · rw [setTag, h.2 p hp]
    exact hwrite
  · rw [hread, Function.update_apply]
    split_ifs
    · rfl
    · exact h.2 i hi

/-- A new cell at the end. -/
theorem Reads.alloc (h : Reads m n g) (x : Ezxml) :
    (m.alloc x).1 = n ∧ Reads (m.alloc x).2 (n + 1) (Function.update g n x) := by
  refine ⟨h.1, by rw [Heap.size_alloc, h.1], fun i hi => ?_⟩
  rw [Heap.read_alloc, h.1, Function.update_apply]
  split_ifs with hin
  · rfl
  · exact h.2 i (by omega)

/-- The loop along a chain whose tags are all at most at this offset ends on the last one. -/
theorem lastAtMost_eq {field : Ezxml → Option TagPtr} {off k : Nat} {head : Option Nat} {x : Nat × Ezxml}
    {l : List (Nat × Ezxml)} (hc : Chain field m head (l ++ [x])) (hoff : ∀ y ∈ l ++ [x], y.2.off ≤ off)
    (hk : l.length < k) : ∃ p, head = some p ∧ lastAtMost m field off k p = some x.1 := by
  induction l generalizing head k with
  | nil =>
      obtain ⟨rfl, hread, hend⟩ := hc
      obtain ⟨k, rfl⟩ := Nat.exists_eq_add_one_of_ne_zero (by omega : k ≠ 0)
      refine ⟨x.1, rfl, ?_⟩
      rw [lastAtMost, hread, Option.bind_eq_bind, Option.bind_some, show field x.2 = none from hend]
  | cons y l ih =>
      obtain ⟨rfl, hread, hrest⟩ := hc
      obtain ⟨k, rfl⟩ := Nat.exists_eq_add_one_of_ne_zero (by omega : k ≠ 0)
      obtain ⟨p, hp, hlast⟩ := ih (k := k) hrest (fun z hz => hoff z (List.mem_cons_of_mem y hz))
        (by rw [List.length_cons] at hk; omega)
      refine ⟨y.1, rfl, ?_⟩
      have hnext : ∃ z, m.read p = some z ∧ z.off ≤ off := by
        obtain ⟨z, hz⟩ : ∃ z, (p, z) ∈ l ++ [x] := by
          have hhead := hrest.head_eq
          rw [hp] at hhead
          obtain ⟨z, hz, rfl⟩ := List.mem_map.mp (List.mem_of_head? hhead.symm)
          exact ⟨z.2, hz⟩
        exact ⟨z, hrest.read _ hz, hoff _ (List.mem_cons_of_mem y hz)⟩
      obtain ⟨z, hz, hzoff⟩ := hnext
      rw [lastAtMost, hread, Option.bind_eq_bind, Option.bind_some, hp]
      simp only [hz, Option.bind_some, if_pos hzoff, hlast]

/-- The walk along the siblings, up to the first one that stops it. -/
theorem siblingWalk_eq (stop : Ezxml → Bool) {k : Nat} (prev : Option Nat) {head : Option Nat}
    {l l' : List (Nat × Ezxml)} (hc : Chain Ezxml.sibling m head (l ++ l')) (hl : ∀ x ∈ l, stop x.2 = false)
    (hl' : ∀ x ∈ l'.head?, stop x.2 = true) (hk : l.length < k) :
    siblingWalk m stop k prev head = some (((l.map Prod.fst).getLast?).or prev, (l'.map Prod.fst).head?) := by
  induction l generalizing prev head k with
  | nil =>
      cases l' with
      | nil =>
          obtain rfl : head = none := hc
          cases k <;> rfl
      | cons x l' =>
          obtain ⟨rfl, hread, -⟩ := hc
          obtain ⟨k, rfl⟩ := Nat.exists_eq_add_one_of_ne_zero (by omega : k ≠ 0)
          rw [siblingWalk, hread, Option.bind_eq_bind, Option.bind_some, if_pos (hl' x rfl)]
          rfl
  | cons x l ih =>
      obtain ⟨rfl, hread, hrest⟩ := hc
      obtain ⟨k, rfl⟩ := Nat.exists_eq_add_one_of_ne_zero (by omega : k ≠ 0)
      rw [siblingWalk, hread, Option.bind_eq_bind, Option.bind_some, hl x List.mem_cons_self,
        if_neg Bool.false_ne_true, ih (some x.1) hrest (fun y hy => hl y (List.mem_cons_of_mem x hy))
          (by rw [List.length_cons] at hk; omega)]
      rw [List.map_cons, List.getLast?_cons]
      cases (l.map Prod.fst).getLast? <;> rfl

end Reads

/-! ## The tags of a new row -/

theorem getLast?_eq_of_next (hsorted : l.Pairwise (· < ·)) (hi : i ∈ l) (hn : i < n) :
    (nextIn l i).or (if i < n then some n else none) = if l.getLast? = some i then some n else nextIn l i := by
  obtain ⟨front, back, rfl⟩ := List.append_of_mem hi
  rw [nextIn_of_split hsorted, if_pos hn, List.getLast?_append_cons]
  cases back with
  | nil => simp
  | cons j back =>
      have hne : ¬(i :: j :: back).getLast? = some i := by
        intro hlast
        have hmem : i ∈ j :: back := List.mem_of_getLast? (by rwa [List.getLast?_cons_cons] at hlast)
        have hlt := (List.pairwise_cons.mp (List.pairwise_append.mp hsorted).2.1).1 i hmem
        exact Nat.lt_irrefl _ hlt
      rw [if_neg hne]
      rfl

/-- Behind all of a list there is no next number. -/
theorem nextIn_eq_none_of_lt (h : ∀ j ∈ l, j < n) : nextIn l n = none ∧ nextIn (l ++ [n]) n = none :=
  ⟨(nextIn_eq_none l).mpr fun j hj => (h j hj).le,
    (nextIn_eq_none _).mpr (List.forall_mem_append.mpr ⟨fun j hj => (h j hj).le, by simp⟩)⟩

theorem mem_kids_of_mem_alike {k : Option (Option Text)} (h : i ∈ alike TagRow.name t p k) : i ∈ kids t p :=
  (mem_alike.mp h).1

theorem mem_kids_of_mem_heads (h : i ∈ heads TagRow.name t p) : i ∈ kids t p := Firsts.firsts_sublist.subset h

theorem kids_length (hroot : Rooted t) : kids t t.length = [] := by
  rw [List.eq_nil_iff_forall_not_mem]
  intro i hi
  exact Nat.lt_asymm (lt_length_of_mem_kids hi) (hroot i _ (mem_kids.mp hi))

theorem tagAt_push_new (hroot : Rooted t) (hc : c < t.length) : tagAt (push t c a) t.length =
    { name := a.name, attr := a.attr, txt := a.txt, off := a.off
      next := none, sibling := none, ordered := none, child := none, parent := some c } := by
  have hkids : ∀ j ∈ kids t c, j < t.length := fun j hj => lt_length_of_mem_kids hj
  have halike := nextIn_eq_none_of_lt fun j hj => hkids j (mem_kids_of_mem_alike (k := some a.name) hj)
  have hheads := nextIn_eq_none_of_lt fun j hj => hkids j (mem_kids_of_mem_heads hj)
  have hnext : nextIn (heads TagRow.name (push t c a) c) t.length = none := by
    rw [heads_push]
    split_ifs
    · exact hheads.2
    · rw [List.append_nil]
      exact hheads.1
  unfold tagAt rowAt
  simp only [getElem?_push, parentAt_push, keyAt_push, Option.map_some, Option.getD_some, Option.bind_some,
    alike_push, kids_push, kids_length hroot, if_neg hc.ne, true_and, if_true, List.nil_append, List.head?_nil,
    halike.2, hnext, (nextIn_eq_none_of_lt hkids).2, ite_self]

/-- Where the pointers of a child lead. -/
theorem tagAt_of_mem_kids (hi : i ∈ kids t p) : (tagAt t i).ordered = nextIn (kids t p) i ∧
    (tagAt t i).next = nextIn (alike TagRow.name t p (keyAt TagRow.name t i)) i ∧
    (i ∈ heads TagRow.name t p → (tagAt t i).sibling = nextIn (heads TagRow.name t p) i) := by
  unfold tagAt
  simp only [mem_kids.mp hi, Option.bind_some, true_and]
  exact fun hmem => if_pos hmem

theorem keyAt_eq (hi : i < t.length) : keyAt TagRow.name t i = some (tagAt t i).name := by
  rw [keyAt, tagAt, rowAt, List.getElem?_eq_getElem hi]
  rfl

/-- **A new row changes four tags at most**: its parent, and the ones that were last. -/
theorem tagAt_push_old (hi : i < t.length) : tagAt (push t c a) i =
    { tagAt t i with
      child := if i = c ∧ kids t c = [] then some t.length else (tagAt t i).child
      ordered := if (kids t c).getLast? = some i then some t.length else (tagAt t i).ordered
      next :=
        if (alike TagRow.name t c (some a.name)).getLast? = some i then some t.length else (tagAt t i).next
      sibling :=
        if alike TagRow.name t c (some a.name) = [] ∧ (heads TagRow.name t c).getLast? = some i then some t.length
        else (tagAt t i).sibling } := by
  have hchild : (kids (push t c a) i).head? =
      if i = c ∧ kids t c = [] then some t.length else (kids t i).head? := by
    rw [kids_push]
    by_cases hic : i = c
    · subst hic
      cases kids t i <;> simp
    · rw [if_neg (Ne.symm hic), if_neg fun h => hic h.1, List.append_nil]
  -- a child of another row is in no chain of `c`
  have hout : ∀ {l : List Nat}, (∀ j ∈ l, j ∈ kids t c) → parentAt t i ≠ some c → ¬l.getLast? = some i :=
    fun hl hp hlast => hp (mem_kids.mp (hl i (List.mem_of_getLast? hlast)))
  have halikeMem : ∀ j ∈ alike TagRow.name t c (some a.name), j ∈ kids t c := fun j => mem_kids_of_mem_alike
  have hheadsMem : ∀ j ∈ heads TagRow.name t c, j ∈ kids t c := fun j => mem_kids_of_mem_heads
  unfold tagAt rowAt
  rw [getElem?_push_of_lt hi, parentAt_push_of_lt hi, keyAt_push_of_lt hi, hchild]
  by_cases hp : parentAt t i = some c
  · have hkid : i ∈ kids t c := mem_kids.mpr hp
    have hordered : nextIn (kids (push t c a) c) i =
        if (kids t c).getLast? = some i then some t.length else nextIn (kids t c) i := by
      rw [kids_push, if_pos rfl, nextIn_concat, getLast?_eq_of_next (sorted_kids t c) hkid hi]
    have hnext : nextIn (alike TagRow.name (push t c a) c (keyAt TagRow.name t i)) i =
        if (alike TagRow.name t c (some a.name)).getLast? = some i then some t.length
        else nextIn (alike TagRow.name t c (keyAt TagRow.name t i)) i := by
      rw [alike_push]
      by_cases hkey : some a.name = keyAt TagRow.name t i
      · have hmem : i ∈ alike TagRow.name t c (keyAt TagRow.name t i) :=
          mem_alike.mpr ⟨hkid, rfl⟩
        rw [if_pos ⟨rfl, hkey⟩, hkey, nextIn_concat, getLast?_eq_of_next (sorted_alike t c _) hmem hi]
      · have hnot : ¬(alike TagRow.name t c (some a.name)).getLast? = some i := by
          exact fun hlast => hkey (mem_alike.mp (List.mem_of_getLast? hlast)).2.symm
        rw [if_neg fun h => hkey h.2, if_neg hnot, List.append_nil]
    have hsibling : (if i ∈ heads TagRow.name (push t c a) c then nextIn (heads TagRow.name (push t c a) c) i
          else none) =
        if alike TagRow.name t c (some a.name) = [] ∧ (heads TagRow.name t c).getLast? = some i then some t.length
        else if i ∈ heads TagRow.name t c then nextIn (heads TagRow.name t c) i else none := by
      by_cases hempty : alike TagRow.name t c (some a.name) = []
      · have hheads : heads TagRow.name (push t c a) c = heads TagRow.name t c ++ [t.length] := by
          rw [heads_push, if_pos ⟨rfl, hempty⟩]
        rw [hheads]
        by_cases hmem : i ∈ heads TagRow.name t c
        · rw [if_pos (List.mem_append_left _ hmem), if_pos hmem, nextIn_concat,
            getLast?_eq_of_next (sorted_heads t c) hmem hi]
          simp only [hempty, true_and]
        · have hnew : i ∉ heads TagRow.name t c ++ [t.length] := by
            simpa [hmem] using hi.ne
          have hlast : ¬(alike TagRow.name t c (some a.name) = [] ∧ (heads TagRow.name t c).getLast? = some i) :=
            fun h => hmem (List.mem_of_getLast? h.2)
          rw [if_neg hnew, if_neg hmem, if_neg hlast]
      · have hheads : heads TagRow.name (push t c a) c = heads TagRow.name t c := by
          rw [heads_push, if_neg fun h => hempty h.2, List.append_nil]
        have hlast : ¬(alike TagRow.name t c (some a.name) = [] ∧ (heads TagRow.name t c).getLast? = some i) :=
          fun h => hempty h.1
        rw [hheads, if_neg hlast]
    simp only [hp, Option.bind_some, hordered, hnext, hsibling]
  · -- its chains are not prolonged
    have hlast : ¬(alike TagRow.name t c (some a.name) = [] ∧ (heads TagRow.name t c).getLast? = some i) :=
      fun h => hout hheadsMem hp h.2
    rw [if_neg (hout (fun _ => id) hp), if_neg (hout halikeMem hp), if_neg hlast]
    cases hq : parentAt t i with
    | none => rfl
    | some q =>
        have hcq : c ≠ q := fun h => hp (h ▸ hq)
        simp only [Option.bind_some, kids_push, alike_push, heads_push, hcq, false_and, if_false,
          List.append_nil]

/-! ## Adding a tag -/

section Insert

variable {g : Nat → Ezxml} {off head last : Nat}

/-- Along a list that is chained by a pointer the loop ends on the last tag. -/
theorem lastAtMost_last (field : Ezxml → Option TagPtr) (h : Reads m n g) (hsorted : l.Pairwise (· < ·))
    (hlt : ∀ j ∈ l, j < n) (hnext : ∀ j ∈ l, field (g j) = nextIn l j) (hoff : ∀ j ∈ l, (g j).off ≤ off)
    (hlen : l.length ≤ n) (hhead : l.head? = some head) :
    ∃ last, l.getLast? = some last ∧ last < n ∧ field (g last) = none ∧
      lastAtMost m field off m.size head = some last := by
  obtain ⟨front, last, rfl⟩ := (List.eq_nil_or_concat' l).resolve_left fun hnil => by simp [hnil] at hhead
  have hchain := chain_of_next hsorted (fun j hj => h.2 j (hlt j hj)) hnext
  rw [hhead, List.map_append] at hchain
  have hk : (front.map fun j => (j, g j)).length < m.size := by
    rw [List.length_append, List.length_singleton] at hlen
    rw [List.length_map, h.1]
    exact hlen
  have hall : ∀ y ∈ (front.map fun j => (j, g j)) ++ [(last, g last)], y.2.off ≤ off := by
    intro y hy
    obtain ⟨j, hj, rfl⟩ := List.mem_map.mp (List.map_append.symm ▸ hy : y ∈ (front ++ [last]).map fun j => (j, g j))
    exact hoff j hj
  obtain ⟨p, hp, hwalk⟩ := lastAtMost_eq hchain hall hk
  obtain rfl := Option.some.inj hp
  have hmem : last ∈ front ++ [last] := List.mem_concat_self
  exact ⟨last, List.getLast?_concat, hlt last hmem,
    (hnext last hmem).trans (nextIn_getLast hsorted List.getLast?_concat), hwalk⟩

/-- The new tag is put behind the last child. -/
theorem insertOrdered_eq (h : Reads m (t.length + 1) g) (hnew : (g t.length).ordered = none)
    (hhead : (kids t c).head? = some head) (hordered : ∀ j ∈ kids t c, (g j).ordered = nextIn (kids t c) j)
    (hoff : ∀ j ∈ kids t c, (g j).off ≤ off) :
    ∃ m', insertOrdered m t.length c head off = some m' ∧ Reads m' (t.length + 1) fun j =>
      { g j with ordered := if (kids t c).getLast? = some j then some t.length else (g j).ordered } := by
  have hlt : ∀ j ∈ kids t c, j < t.length + 1 := fun j hj => Nat.lt_succ_of_lt (lt_length_of_mem_kids hj)
  have hmem : head ∈ kids t c := List.mem_of_head? hhead
  obtain ⟨last, hlast, hlastlt, hend, hwalk⟩ := lastAtMost_last Ezxml.ordered h (sorted_kids t c) hlt hordered hoff
    ((length_kids_le t c).trans (Nat.le_succ _)) hhead
  obtain ⟨m₁, hset, h₁⟩ := h.set (Nat.lt_succ_self _) fun y => { y with ordered := (g last).ordered }
  obtain ⟨m₂, hset₂, h₂⟩ := h₁.set hlastlt fun y => { y with ordered := some t.length }
  refine ⟨m₂, ?_, h₂.congr fun j hj => ?_⟩
  · unfold insertOrdered
    simp only [offAtMost, h.2 head (hlt head hmem), Option.bind_eq_bind, Option.bind_some, hoff head hmem,
      decide_true, if_true, hwalk, h.2 last hlastlt, hset, hset₂]
  · simp only [Function.update_apply, hlast, Option.some_inj]
    have hne : last ≠ t.length := (lt_length_of_mem_kids (List.mem_of_getLast? hlast)).ne
    by_cases hjl : j = last
    · subst hjl
      simp [hne]
    · rw [if_neg hjl, if_neg (Ne.symm hjl)]
      split_ifs with hjn
      · rw [hjn, hend, hnew]
      · rfl

/-- The walk along the first tags of the names, from the first child on. -/
theorem siblingWalk_heads (h : Reads m n g) (hn : t.length < n) (hhead : (kids t c).head? = some head)
    (hsibling : ∀ j ∈ heads TagRow.name t c, (g j).sibling = nextIn (heads TagRow.name t c) j) (stop : Ezxml → Bool)
    {l l' : List Nat} (hsplit : heads TagRow.name t c = l ++ l') (hl : ∀ j ∈ l, stop (g j) = false)
    (hl' : ∀ j ∈ l'.head?, stop (g j) = true) :
    siblingWalk m stop m.size none (some head) = some (l.getLast?, l'.head?) := by
  have hkids : ∀ j ∈ heads TagRow.name t c, j ∈ kids t c := fun j => mem_kids_of_mem_heads
  have hread : ∀ j ∈ heads TagRow.name t c, m.read j = some (g j) := fun j hj =>
    h.2 j ((lt_length_of_mem_kids (hkids j hj)).trans hn)
  have hchain := chain_of_next (sorted_heads t c) hread hsibling
  have hkey : ∀ j ∈ kids t c, keyAt TagRow.name t j ≠ none := by
    intro j hj
    rw [keyAt, List.getElem?_eq_getElem (lt_length_of_mem_kids hj)]
    exact Option.some_ne_none _
  rw [show (heads TagRow.name t c).head? = some head from (Firsts.head?_firsts hkey).trans hhead, hsplit,
    List.map_append] at hchain
  have hlen : (l.map fun j => (j, g j)).length < m.size := by
    have hle : (l ++ l').length ≤ t.length := by
      rw [← hsplit]
      exact Firsts.firsts_sublist.length_le.trans (length_kids_le t c)
    rw [List.length_map, h.1]
    rw [List.length_append] at hle
    omega
  have hwalk := siblingWalk_eq stop none hchain
    (fun x hx => by obtain ⟨j, hj, rfl⟩ := List.mem_map.mp hx; exact hl j hj)
    (fun x hx => by
      rw [List.head?_map] at hx
      obtain ⟨j, hj, rfl⟩ := Option.mem_map.mp hx
      exact hl' j hj) hlen
  rw [hwalk, List.map_map, List.map_map, Option.or_none]
  simp [Function.comp_def]

/-- The new tag is put behind the last one with its name, or starts the chain of its name. -/
theorem insertType_eq (h : Reads m (t.length + 1) g) (hnew : (g t.length).next = none ∧ (g t.length).sibling = none)
    (hhead : (kids t c).head? = some head) (hname : ∀ j ∈ kids t c, keyAt TagRow.name t j = some (g j).name)
    (hnext : ∀ j ∈ kids t c, (g j).next = nextIn (alike TagRow.name t c (keyAt TagRow.name t j)) j)
    (hsibling : ∀ j ∈ heads TagRow.name t c, (g j).sibling = nextIn (heads TagRow.name t c) j)
    (hoff : ∀ j ∈ kids t c, (g j).off ≤ off) :
    ∃ m', insertType m t.length head off = some m' ∧ Reads m' (t.length + 1) fun j =>
      { g j with
        next := if (alike TagRow.name t c (some (g t.length).name)).getLast? = some j then some t.length else (g j).next
        sibling :=
          if alike TagRow.name t c (some (g t.length).name) = [] ∧ (heads TagRow.name t c).getLast? = some j then
            some t.length
          else (g j).sibling } := by
  have hkids : ∀ j ∈ heads TagRow.name t c, j ∈ kids t c := fun j => mem_kids_of_mem_heads
  have hlt : ∀ j ∈ kids t c, j < t.length := fun j => lt_length_of_mem_kids
  have hfirst : (heads TagRow.name t c).find? (fun j => decide (keyAt TagRow.name t j = some (g t.length).name)) =
      (alike TagRow.name t c (some (g t.length).name)).head? := find?_heads
  have hname' : ∀ j ∈ heads TagRow.name t c,
      decide ((g j).name = (g t.length).name) = decide (keyAt TagRow.name t j = some (g t.length).name) := by
    intro j hj
    simp only [hname j (hkids j hj), Option.some_inj]
  have hread := h.2 t.length (Nat.lt_succ_self _)
  unfold insertType
  rw [hread]
  simp only [Option.bind_eq_bind, Option.bind_some]
  cases halike : alike TagRow.name t c (some (g t.length).name) with
  | cons first rest =>
      -- another child has the name
      rw [halike, List.head?_cons, List.find?_eq_some_iff_append] at hfirst
      obtain ⟨hkey, front, back, hsplit, hfront⟩ := hfirst
      have hwalk := siblingWalk_heads h (Nat.lt_succ_self _) hhead hsibling
        (fun y => decide (y.name = (g t.length).name)) hsplit (fun j hj => by
          rw [hname' j (hsplit ▸ List.mem_append_left _ hj)]
          simpa using hfront j hj)
        (fun j hj => by
          obtain rfl := Option.some.inj hj
          rw [hname' first (hsplit ▸ List.mem_append_right _ List.mem_cons_self)]
          exact hkey)
      have hmem : ∀ j ∈ alike TagRow.name t c (some (g t.length).name), j ∈ kids t c := fun j => mem_kids_of_mem_alike
      have hfirsthead : (alike TagRow.name t c (some (g t.length).name)).head? = some first := by rw [halike]; rfl
      have hfirstmem : first ∈ kids t c := hmem first (halike ▸ List.mem_cons_self)
      obtain ⟨last, hlast, hlastlt, hend, hloop⟩ := lastAtMost_last Ezxml.next h
        (sorted_alike t c (some (g t.length).name)) (fun j hj => Nat.lt_succ_of_lt (hlt j (hmem j hj)))
        (fun j hj => by rw [hnext j (hmem j hj), (mem_alike.mp hj).2]) (fun j hj => hoff j (hmem j hj))
        (((List.length_filter_le _ _).trans (length_kids_le t c)).trans (Nat.le_succ _)) hfirsthead
      obtain ⟨m₁, hset, h₁⟩ := h.set (Nat.lt_succ_self _) fun y => { y with next := (g last).next }
      obtain ⟨m₂, hset₂, h₂⟩ := h₁.set hlastlt fun y => { y with next := some t.length }
      have hne : last ≠ t.length := (hlt last (hmem last (List.mem_of_getLast? hlast))).ne
      refine ⟨m₂, ?_, h₂.congr fun j hj => ?_⟩
      · simp only [hwalk, Option.bind_some, List.head?_cons, offAtMost,
          h.2 first (Nat.lt_succ_of_lt (hlt _ hfirstmem)), Option.bind_eq_bind, hoff first hfirstmem, decide_true, hloop, h.2 last hlastlt, hset, hset₂]
      · rw [halike] at hlast
        simp only [Function.update_apply, hlast, Option.some_inj, reduceCtorEq, false_and, if_false]
        by_cases hjl : j = last
        · subst hjl
          simp [hne]
        · rw [if_neg hjl, if_neg (Ne.symm hjl)]
          split_ifs with hjn
          · rw [hjn, hend, hnew.1]
          · rfl
  | nil =>
      -- the first one with its name
      rw [halike, List.head?_nil, List.find?_eq_none] at hfirst
      have hall : heads TagRow.name t c = heads TagRow.name t c ++ [] := (List.append_nil _).symm
      have hwalk := siblingWalk_heads h (Nat.lt_succ_self _) hhead hsibling
        (fun y => decide (y.name = (g t.length).name)) hall (fun j hj => by
          rw [hname' j hj]
          simpa using hfirst j hj) nofun
      obtain ⟨m₁, hset, h₁⟩ := h.set (Nat.lt_succ_self _) fun y => { y with next := none }
      have hwalk₂ := siblingWalk_heads h₁ (Nat.lt_succ_self _) hhead (fun j hj => by
          rw [Function.update_of_ne (hlt j (hkids j hj)).ne, hsibling j hj]) (fun y => decide (off < y.off)) hall
        (fun j hj => by
          rw [Function.update_of_ne (hlt j (hkids j hj)).ne]
          exact decide_eq_false (Nat.not_lt_of_le (hoff j (hkids j hj)))) nofun
      obtain ⟨m₂, hset₂, h₂⟩ := h₁.set (Nat.lt_succ_self _) fun y => { y with sibling := none }
      -- the new tag leads nowhere yet
      have h₂ : Reads m₂ (t.length + 1) g := h₂.congr fun j hj => by
        rw [Function.update_idem, Function.update_self, Function.update_apply]
        split_ifs with hjn
        · have heta : g t.length =
              { g t.length with next := (g t.length).next, sibling := (g t.length).sibling } := rfl
          rw [hnew.1, hnew.2] at heta
          rw [hjn, heta]
        · rfl
      cases hlast : (heads TagRow.name t c).getLast? with
      | none =>
          refine ⟨m₂, ?_, h₂.congr fun j hj => ?_⟩
          · simp [hwalk, hlast, offAtMost, hset, hwalk₂, hset₂]
          · simp
      | some last =>
          have hlastlt := hlt last (hkids last (List.mem_of_getLast? hlast))
          obtain ⟨m₃, hset₃, h₃⟩ := h₂.set (Nat.lt_succ_of_lt hlastlt) fun y => { y with sibling := some t.length }
          refine ⟨m₃, ?_, h₃.congr fun j hj => ?_⟩
          · simp [hwalk, hlast, offAtMost, hset, hwalk₂, hset₂, hset₃]
          · rw [Function.update_apply]
            by_cases hjl : j = last
            · subst hjl
              simp
            · simp [hjl, Ne.symm hjl]

/-- The pointers behind the last tags are all that is missing for the new row. -/
theorem tagAt_push_eq (hc : c < t.length) (hnew : g t.length = tagAt (push t c a) t.length)
    (hold : ∀ j < t.length, g j = tagAt t j) (hi : i < (push t c a).length) : tagAt (push t c a) i =
    { g i with
      child := if i = c ∧ kids t c = [] then some t.length else (g i).child
      ordered := if (kids t c).getLast? = some i then some t.length else (g i).ordered
      next := if (alike TagRow.name t c (some a.name)).getLast? = some i then some t.length else (g i).next
      sibling :=
        if alike TagRow.name t c (some a.name) = [] ∧ (heads TagRow.name t c).getLast? = some i then some t.length
        else (g i).sibling } := by
  rw [length_push] at hi
  rcases Nat.lt_succ_iff_lt_or_eq.mp hi with hi | rfl
  · rw [tagAt_push_old hi, hold i hi]
  · have hout : ∀ {l : List Nat}, (∀ j ∈ l, j ∈ kids t c) → ¬l.getLast? = some t.length := fun hl hlast =>
      Nat.lt_irrefl _ (lt_length_of_mem_kids (hl _ (List.mem_of_getLast? hlast)))
    have halike := hout (l := alike TagRow.name t c (some a.name)) fun j => mem_kids_of_mem_alike
    have hheads : ¬(alike TagRow.name t c (some a.name) = [] ∧ (heads TagRow.name t c).getLast? = some t.length) :=
      fun h => hout (fun j => mem_kids_of_mem_heads) h.2
    have hchild : ¬(t.length = c ∧ kids t c = []) := fun h => hc.ne' h.1
    rw [if_neg halike, if_neg hheads, if_neg (hout fun _ => id), if_neg hchild, hnew]

/-- **A tag that is added behind the others** is a new row. -/
theorem ezxmlAddChild_eq (h : Tagged m t) (hroot : Rooted t) (hc : c < t.length) {name : Text}
    (hoff : ∀ j ∈ kids t c, (tagAt t j).off ≤ off) :
    ∃ m', ezxmlAddChild m c name off = some (t.length, m') ∧ Tagged m' (push t c ⟨some name, [], [], off⟩) := by
  obtain ⟨hptr, h₀⟩ := Reads.alloc h ⟨some name, [], [], 0, none, none, none, none, none⟩
  obtain ⟨m₁, hset, h₁⟩ := h₀.set (Nat.lt_succ_self _) fun x =>
    { x with next := none, sibling := none, ordered := none, off := off, parent := some c }
  obtain ⟨g, h₁, hgnew, hgold⟩ : ∃ g, Reads m₁ (t.length + 1) g ∧
      g t.length = tagAt (push t c ⟨some name, [], [], off⟩) t.length ∧ ∀ j < t.length, g j = tagAt t j := by
    refine ⟨_, h₁, ?_, fun j hj => ?_⟩
    · rw [Function.update_self, Function.update_self, tagAt_push_new hroot hc]
    · rw [Function.update_of_ne hj.ne, Function.update_of_ne hj.ne]
  have hkids : ∀ j ∈ kids t c, j < t.length := fun j => lt_length_of_mem_kids
  have hparent : ∀ j ∈ kids t c, parentAt t j = some c := fun j => mem_kids.mp
  have hread := h₁.2 c (Nat.lt_succ_of_lt hc)
  have hchild : (g c).child = (kids t c).head? := by
    rw [hgold c hc]
    rfl
  unfold ezxmlAddChild ezxmlInsert
  rw [show m.alloc ⟨some name, [], [], 0, none, none, none, none, none⟩ = (t.length, _) from Prod.ext hptr rfl]
  simp only [hset, hread, hchild, Option.bind_eq_bind, Option.bind_some]
  have hfinal := fun i => tagAt_push_eq (i := i) hc hgnew hgold
  cases hhead : (kids t c).head? with
  | none =>
      -- the only child
      have hnil : kids t c = [] := List.head?_eq_none_iff.mp hhead
      obtain ⟨m₂, hset₂, h₂⟩ := h₁.set (Nat.lt_succ_of_lt hc) fun x => { x with child := some t.length }
      refine ⟨m₂, by simp only [hset₂, Option.bind_some], h₂.1.trans length_push.symm, fun j hj => ?_⟩
      have hj' : j < t.length + 1 := by rwa [length_push] at hj
      have halike : alike TagRow.name t c (some (some name)) = [] := by simp [alike, hnil]
      have hheads : heads TagRow.name t c = [] := by simp [heads, hnil, Firsts.firsts]
      rw [h₂.2 j hj', hfinal j hj, hnil, halike, hheads, Function.update_apply]
      by_cases hjc : j = c
      · subst hjc
        simp
      · simp [hjc]
  | some head =>
      have hne : kids t c ≠ [] := fun hnil => by simp [hnil] at hhead
      have hgoff : ∀ j ∈ kids t c, (g j).off ≤ off := fun j hj => hgold j (hkids j hj) ▸ hoff j hj
      obtain ⟨m₂, hins, h₂⟩ := insertOrdered_eq h₁ (by rw [hgnew, tagAt_push_new hroot hc]) hhead
        (fun j hj => hgold j (hkids j hj) ▸ (tagAt_of_mem_kids hj).1) hgoff
      obtain ⟨m₃, htype, h₃⟩ := insertType_eq h₂ (by rw [hgnew, tagAt_push_new hroot hc]; exact ⟨rfl, rfl⟩) hhead
        (fun j hj => hgold j (hkids j hj) ▸ keyAt_eq (hkids j hj))
        (fun j hj => hgold j (hkids j hj) ▸ (tagAt_of_mem_kids hj).2.1)
        (fun j hj => hgold j (hkids j (mem_kids_of_mem_heads hj)) ▸
          (tagAt_of_mem_kids (mem_kids_of_mem_heads hj)).2.2 hj) hgoff
      refine ⟨m₃, by simp only [hins, htype, Option.bind_some], h₃.1.trans length_push.symm, fun j hj => ?_⟩
      have hj' : j < t.length + 1 := by rwa [length_push] at hj
      have hnewname : (g t.length).name = some name := by rw [hgnew, tagAt_push_new hroot hc]
      simp only [h₃.2 j hj', hfinal j hj, hnewname, hne, and_false, if_false]

end Insert

/-! ## Changing a tag -/

@[simp] theorem rowAt_edit_of_ne {f : TagRow → TagRow} (h : i ≠ c) : rowAt (edit t c f) i = rowAt t i := by
  rw [rowAt, getElem?_edit_of_ne (Ne.symm h), rowAt]

@[simp] theorem rowAt_edit {f : TagRow → TagRow} (hc : c < t.length) : rowAt (edit t c f) c = f (rowAt t c) := by
  rw [rowAt, getElem?_edit (List.getElem?_eq_getElem hc), rowAt, List.getElem?_eq_getElem hc]
  rfl

theorem rowAt_push_of_lt (hi : i < t.length) : rowAt (push t c a) i = rowAt t i := by
  rw [rowAt, getElem?_push_of_lt hi, rowAt]

@[simp] theorem rowAt_push : rowAt (push t c a) t.length = a := by
  rw [rowAt, getElem?_push]
  rfl

/-- A row that keeps its name keeps all its pointers. -/
theorem tagAt_edit {f : TagRow → TagRow} (hname : ∀ r, (f r).name = r.name) : tagAt (edit t c f) i =
    { tagAt t i with
      attr := (rowAt (edit t c f) i).attr, txt := (rowAt (edit t c f) i).txt, off := (rowAt (edit t c f) i).off } := by
  have hrow : (rowAt (edit t c f) i).name = (rowAt t i).name := by
    by_cases hic : i = c
    · subst hic
      cases hi : t[i]? with
      | none => rw [rowAt, Parents.edit, List.getElem?_modify_eq, hi, rowAt, hi]; rfl
      | some r => rw [rowAt, getElem?_edit hi, rowAt, hi]; exact hname r.2
    · rw [rowAt_edit_of_ne hic]
  have hkey : keyAt TagRow.name (edit t c f) = keyAt TagRow.name t := funext fun j => keyAt_edit hname
  unfold tagAt heads alike
  simp only [hrow, parentAt_edit, kids_edit, hkey]

/-- **A tag that is changed** is a row that is changed. -/
theorem Tagged.edit (h : Tagged m t) (hc : c < t.length) {f : TagRow → TagRow} (hname : ∀ r, (f r).name = r.name)
    {F : Ezxml → Ezxml} (hF : F (tagAt t c) =
      { tagAt t c with attr := (f (rowAt t c)).attr, txt := (f (rowAt t c)).txt, off := (f (rowAt t c)).off }) :
    ∃ m', setTag m c F = some m' ∧ Tagged m' (edit t c f) := by
  obtain ⟨m', hset, h'⟩ := h.set hc F
  refine ⟨m', hset, ?_⟩
  unfold Tagged
  rw [length_edit]
  refine h'.congr fun j hj => ?_
  rw [tagAt_edit hname, Function.update_apply]
  split_ifs with hjc
  · rw [hjc, hF, rowAt_edit hc]
  · rw [rowAt_edit_of_ne hjc]
    rfl

/-- A row without a parent is in no chain, so it can get another name. -/
theorem tagAt_edit_of_root {f : TagRow → TagRow} (hc : c < t.length) (hparent : parentAt t c = none) :
    tagAt (edit t c f) c =
      { tagAt t c with
        name := (f (rowAt t c)).name, attr := (f (rowAt t c)).attr, txt := (f (rowAt t c)).txt
        off := (f (rowAt t c)).off } := by
  unfold tagAt
  simp only [rowAt_edit hc, parentAt_edit, hparent, kids_edit, Option.bind_none]

end Tags

end Workload
