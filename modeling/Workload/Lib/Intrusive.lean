import Mathlib.Logic.Function.Basic
import Mathlib.Data.List.Nodup

/-!
# `Lib.Intrusive` — intrusive doubly linked lists

The nodes carry their own `prev`/`next` pointers; several lists can live in the same pair of pointer maps.
`Seg L p h l` reads the maps from the pointer `h` on: the nodes met are `l`, the first one's `prev` is `p`,
and the last one's `next` is NULL. A whole list is a `Seg` with `p = none` and no repeated node
(`IsList`). The edits are `pushFront`, `pushBack` and `unlink`; each is shown to act on the represented list as
`cons`, an append and `erase` do, and the first and the last to leave every list without one of its nodes alone
(`Seg.congr`).
-/

namespace Intrusive

/-- The two pointers of every node. -/
@[ext]
structure Links (α : Type*) where
  prev : α → Option α
  next : α → Option α

variable {α : Type*} {L L' : Links α} {p h : Option α} {a b : α} {l l₁ l₂ : List α}

/-- From pointer `h` the nodes met are exactly `l`; the first one's `prev` is `p`. -/
def Seg (L : Links α) : Option α → Option α → List α → Prop
  | _, h, [] => h = none
  | p, h, a :: l => h = some a ∧ L.prev a = p ∧ Seg L (some a) (L.next a) l

/-- `h` heads a list whose nodes are `l`, each once. -/
def IsList (L : Links α) (h : Option α) (l : List α) : Prop := Seg L none h l ∧ l.Nodup

theorem isList_nil (L : Links α) : IsList L none [] := ⟨rfl, List.nodup_nil⟩

theorem Seg.head_eq (hs : Seg L p h l) : h = l.head? := by
  cases l with
  | nil => exact hs
  | cons a l => exact hs.1

/-- A segment depends on the pointers of its own nodes only. -/
theorem Seg.congr (hs : Seg L p h l)
    (heq : ∀ x ∈ l, L'.prev x = L.prev x ∧ L'.next x = L.next x) : Seg L' p h l := by
  induction l generalizing p h with
  | nil => exact hs
  | cons a l ih =>
      obtain ⟨hh, hp, hl⟩ := hs
      obtain ⟨hprev, hnext⟩ := heq a List.mem_cons_self
      refine ⟨hh, hprev.trans hp, ?_⟩
      rw [hnext]
      exact ih hl fun x hx => heq x (List.mem_cons_of_mem a hx)

theorem IsList.congr (hs : IsList L h l)
    (heq : ∀ x ∈ l, L'.prev x = L.prev x ∧ L'.next x = L.next x) : IsList L' h l :=
  ⟨hs.1.congr heq, hs.2⟩

theorem Seg.next_eq (hs : Seg L p h (l₁ ++ a :: l₂)) : L.next a = l₂.head? := by
  induction l₁ generalizing p h with
  | nil => exact hs.2.2.head_eq
  | cons b l₁ ih => exact ih hs.2.2

theorem Seg.prev_eq (hs : Seg L p h (l₁ ++ a :: l₂)) : L.prev a = l₁.getLast?.or p := by
  induction l₁ generalizing p h with
  | nil => simpa using hs.2.1
  | cons b l₁ ih =>
      have hprev := ih hs.2.2
      cases l₁ with
      | nil => simpa using hprev
      | cons c l₁ =>
          rw [hprev, List.getLast?_cons_cons]
          simp [List.getLast?_cons]

theorem IsList.prev_none_iff (hs : IsList L h (l₁ ++ a :: l₂)) : L.prev a = none ↔ l₁ = [] := by
  rw [hs.1.prev_eq]
  simp

/-- `next` and `prev` are inverse inside one list. -/
theorem IsList.next_iff_prev (hs : IsList L h l) (ha : a ∈ l) (hb : b ∈ l) :
    L.next a = some b ↔ L.prev b = some a := by
  constructor
  · intro hn
    obtain ⟨l₁, l₂, rfl⟩ := List.append_of_mem ha
    rw [hs.1.next_eq] at hn
    obtain ⟨l₃, rfl⟩ := List.head?_eq_some_iff.mp hn
    have hs' : Seg L none h ((l₁ ++ [a]) ++ b :: l₃) := by simpa using hs.1
    rw [hs'.prev_eq]
    simp
  · intro hp
    obtain ⟨l₁, l₂, rfl⟩ := List.append_of_mem hb
    rw [hs.1.prev_eq, Option.or_none] at hp
    obtain ⟨l₃, rfl⟩ := List.getLast?_eq_some_iff.mp hp
    have hs' : Seg L none h (l₃ ++ a :: (b :: l₂)) := by simpa using hs.1
    rw [hs'.next_eq]
    rfl

/-- A successor stays in the list. -/
theorem IsList.next_mem (hs : IsList L h l) (ha : a ∈ l) (hn : L.next a = some b) : b ∈ l := by
  obtain ⟨l₁, l₂, rfl⟩ := List.append_of_mem ha
  rw [hs.1.next_eq] at hn
  exact List.mem_append_right _ (List.mem_cons_of_mem _ (List.mem_of_mem_head? hn))

/-- A predecessor stays in the list. -/
theorem IsList.prev_mem (hs : IsList L h l) (ha : a ∈ l) (hp : L.prev a = some b) : b ∈ l := by
  obtain ⟨l₁, l₂, rfl⟩ := List.append_of_mem ha
  rw [hs.1.prev_eq, Option.or_none] at hp
  exact List.mem_append_left _ (List.mem_of_mem_getLast? hp)

/-! ## The edits -/

variable [DecidableEq α]

/-- Put `a` before the node the head pointer `h` names: `a->prev = NULL; a->next = h; h->prev = a`. -/
def Links.pushFront (L : Links α) (h : Option α) (a : α) : Links α where
  prev x := if h = some x then some a else if x = a then none else L.prev x
  next x := if x = a then h else L.next x

/-- Put `a` behind the node the tail pointer `t` names: `a->prev = t; a->next = NULL; t->next = a`. -/
def Links.pushBack (L : Links α) (t : Option α) (a : α) : Links α where
  prev x := if x = a then t else L.prev x
  next x := if x = a then none else if t = some x then some a else L.next x

/-- Take `a` out: its neighbours point past it and its own pointers become NULL. -/
def Links.unlink (L : Links α) (a : α) : Links α where
  prev x := if x = a then none else if L.next a = some x then L.prev a else L.prev x
  next x := if x = a then none else if L.prev a = some x then L.next a else L.next x

/-- The head pointer after `unlink`. -/
def Links.unlinkHead (L : Links α) (a : α) (h : Option α) : Option α :=
  if L.prev a = none then L.next a else h

/-- **`pushFront` is `cons`.** -/
theorem IsList.pushFront (hs : IsList L h l) (ha : a ∉ l) :
    IsList (L.pushFront h a) (some a) (a :: l) := by
  refine ⟨⟨rfl, ?_, ?_⟩, List.nodup_cons.mpr ⟨ha, hs.2⟩⟩
  · have hne : h ≠ some a := by
      rw [hs.1.head_eq]
      exact fun he => ha (List.mem_of_mem_head? he)
    simp [Links.pushFront, hne]
  · have hnext : (L.pushFront h a).next a = h := by simp [Links.pushFront]
    rw [hnext]
    cases l with
    | nil => exact hs.1
    | cons b l =>
        obtain ⟨rfl, hp, hl⟩ := hs.1
        have hba : b ≠ a := fun he => ha (he ▸ List.mem_cons_self)
        refine ⟨rfl, by simp [Links.pushFront], ?_⟩
        have hbn : (L.pushFront (some b) a).next b = L.next b := by simp [Links.pushFront, hba]
        rw [hbn]
        refine hl.congr fun x hx => ?_
        have hxa : x ≠ a := fun he => ha (he ▸ List.mem_cons_of_mem b hx)
        have hbx : b ≠ x := fun he => (List.nodup_cons.mp hs.2).1 (he ▸ hx)
        simp [Links.pushFront, hxa, hbx]

/-- A list without the new node and the old head is not touched by `pushFront`. -/
theorem IsList.pushFront_frame {h' : Option α} {l' : List α} (hs : IsList L h' l')
    (ha : a ∉ l') (hh : ∀ x ∈ l', h ≠ some x) : IsList (L.pushFront h a) h' l' := by
  refine hs.congr fun x hx => ?_
  have hxa : x ≠ a := fun he => ha (he ▸ hx)
  simp [Links.pushFront, hxa, hh x hx]

private theorem Seg.pushBack_aux {t : Option α} (hs : Seg L p h l) (ht : t = l.getLast?.or p) (hnd : l.Nodup)
    (ha : a ∉ l) : Seg (L.pushBack t a) p (if l = [] then some a else h) (l ++ [a]) := by
  induction l generalizing p h with
  | nil =>
      have hp : p = t := ht.symm
      exact ⟨if_pos rfl, by simp [Links.pushBack, hp], by simp [Links.pushBack, Seg]⟩
  | cons c l ih =>
      obtain ⟨rfl, hcp, hl⟩ := hs
      obtain ⟨hcl, hnd⟩ := List.nodup_cons.mp hnd
      have hca : c ≠ a := fun he => ha (he ▸ List.mem_cons_self)
      have htl : t = l.getLast?.or (some c) := by
        rw [ht, List.getLast?_cons]
        cases l.getLast? <;> rfl
      rw [if_neg (List.cons_ne_nil c l), List.cons_append]
      refine ⟨rfl, by simp [Links.pushBack, hca, hcp], ?_⟩
      have hnext : (L.pushBack t a).next c = if l = [] then some a else L.next c := by
        by_cases hnil : l = []
        · simp [Links.pushBack, hca, htl, hnil]
        · -- the tail is another node
          obtain ⟨l₁, d, rfl⟩ := List.eq_nil_or_concat l |>.resolve_left hnil
          rw [List.concat_eq_append] at *
          have hdc : d ≠ c := fun he => hcl (he ▸ by simp)
          simp [Links.pushBack, hca, htl, hdc]
      rw [hnext]
      exact ih hl htl hnd fun hmem => ha (List.mem_cons_of_mem c hmem)

/-- **`pushBack` appends.** -/
theorem IsList.pushBack (hs : IsList L h l) (ha : a ∉ l) :
    IsList (L.pushBack l.getLast? a) (l ++ [a]).head? (l ++ [a]) := by
  have hseg := hs.1.pushBack_aux (Option.or_none).symm hs.2 ha
  rw [hseg.head_eq] at hseg
  refine ⟨hseg, ?_⟩
  rw [List.nodup_append_comm, List.singleton_append]
  exact List.nodup_cons.mpr ⟨ha, hs.2⟩

/-- The segment before and after `a`, once `a` is taken out. -/
private theorem Seg.unlink_aux (hs : Seg L p h (l₁ ++ a :: l₂)) (hnd : (l₁ ++ a :: l₂).Nodup)
    (hprev : L.prev a = l₁.getLast?.or p) (hp : ∀ x ∈ l₁ ++ a :: l₂, p ≠ some x) :
    Seg (L.unlink a) p (if l₁ = [] then L.next a else h) (l₁ ++ l₂) := by
  induction l₁ generalizing p h with
  | nil =>
      obtain ⟨-, -, hl⟩ := hs
      obtain ⟨hal, hnd⟩ := List.nodup_cons.mp hnd
      rw [if_pos rfl, List.nil_append]
      rw [List.getLast?_nil, Option.none_or] at hprev
      cases l₂ with
      | nil => exact hl
      | cons b l₂ =>
          obtain ⟨hb, -, hl⟩ := hl
          have hba : b ≠ a := fun he => hal (he ▸ List.mem_cons_self)
          refine ⟨hb, by simp [Links.unlink, hba, hb, hprev], ?_⟩
          have hbn : (L.unlink a).next b = L.next b := by
            simp [Links.unlink, hba, hprev, hp b (by simp)]
          rw [hbn]
          refine hl.congr fun x hx => ?_
          have hxa : x ≠ a := fun he => hal (he ▸ List.mem_cons_of_mem b hx)
          have hbx : b ≠ x := fun he => (List.nodup_cons.mp hnd).1 (he ▸ hx)
          simp [Links.unlink, hxa, hb, hbx, hprev, hp x (by simp [hx])]
  | cons c l₁ ih =>
      obtain ⟨rfl, hcp, hl⟩ := hs
      obtain ⟨hcl, hnd⟩ := List.nodup_cons.mp hnd
      have hca : c ≠ a := fun he => hcl (he ▸ by simp)
      have hnext : L.next a = l₂.head? := hl.next_eq
      have hcn : L.next a ≠ some c := by
        rw [hnext]
        intro he
        exact hcl (List.mem_append_right _ (List.mem_cons_of_mem a (List.mem_of_mem_head? he)))
      rw [if_neg (List.cons_ne_nil c l₁), List.cons_append]
      refine ⟨rfl, by simp [Links.unlink, hca, hcn, hcp], ?_⟩
      have hprev' : L.prev a = l₁.getLast?.or (some c) := hl.prev_eq
      have hrest := ih hl hnd hprev' (fun x hx he => hcl (Option.some.inj he ▸ hx))
      have hcn' : (L.unlink a).next c = if l₁ = [] then L.next a else L.next c := by
        by_cases hl₁ : l₁ = []
        · subst hl₁
          simp [Links.unlink, hca, hprev']
        · have hlast : L.prev a ≠ some c := by
            obtain ⟨l₃, d, rfl⟩ := List.eq_nil_or_concat l₁ |>.resolve_left hl₁
            rw [hprev', List.concat_eq_append]
            intro he
            have hdc : d = c := by simpa using he
            exact hcl (hdc ▸ by simp)
          simp [Links.unlink, hca, hl₁, hlast]
      rw [hcn']
      exact hrest

/-- **`unlink` is `erase`.** -/
theorem IsList.unlink (hs : IsList L h (l₁ ++ a :: l₂)) :
    IsList (L.unlink a) (L.unlinkHead a h) (l₁ ++ l₂) := by
  have hseg := hs.1.unlink_aux hs.2 hs.1.prev_eq (fun _ _ => nofun)
  have hhead : L.unlinkHead a h = if l₁ = [] then L.next a else h := by
    unfold Links.unlinkHead
    by_cases hl₁ : l₁ = []
    · rw [if_pos (hs.prev_none_iff.mpr hl₁), if_pos hl₁]
    · rw [if_neg fun hp => hl₁ (hs.prev_none_iff.mp hp), if_neg hl₁]
  rw [hhead]
  exact ⟨hseg, List.Nodup.sublist (by simp) hs.2⟩

/-- `unlink`, stated on the represented list as a whole. -/
theorem IsList.unlink_erase (hs : IsList L h l) (ha : a ∈ l) :
    IsList (L.unlink a) (L.unlinkHead a h) (l.erase a) := by
  obtain ⟨l₁, l₂, hal₁, rfl, herase⟩ := List.exists_erase_eq ha
  rw [herase]
  exact hs.unlink

/-- A list without `a` and without `a`'s neighbours is not touched by `unlink`. -/
theorem IsList.unlink_frame {h' : Option α} {l' : List α} (hs : IsList L h l) (ha : a ∈ l)
    (hs' : IsList L h' l') (hdisj : ∀ x ∈ l', x ∉ l) : IsList (L.unlink a) h' l' := by
  refine hs'.congr fun x hx => ?_
  have hxl : x ∉ l := hdisj x hx
  have hxa : x ≠ a := fun he => hxl (he ▸ ha)
  have hn : L.next a ≠ some x := fun he => hxl (hs.next_mem ha he)
  have hp : L.prev a ≠ some x := fun he => hxl (hs.prev_mem ha he)
  simp [Links.unlink, hxa, hn, hp]

end Intrusive
