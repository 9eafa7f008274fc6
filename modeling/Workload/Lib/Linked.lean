import Workload.Lib.Memory

/-!
# `Lib.Linked` — doubly linked lists in a heap

`Segment` follows the pointers `next` from a head through cells with given contents, up to the pointer `stop`; each
cell points back to the one before it. A list is a segment that starts and ends at NULL and passes no cell twice
(`Linked`).

* `Segment.append_iff` — a segment is cut anywhere.
* `Linked.set` — a cell gets another content with the same pointers.
* **`Linked.link`** — a list goes on with a segment that points back to its last cell.
-/

namespace Memory

variable {α : Type*}

/-- From `head` on these cells with these contents, up to `stop`; the first one points back to `before`. -/
def Segment (prev next : α → Option Nat) (h : Heap α) :
    Option Nat → Option Nat → Option Nat → List (Nat × α) → Prop
  | _, head, stop, [] => head = stop
  | before, head, stop, (p, a) :: l =>
      head = some p ∧ h.read p = some a ∧ prev a = before ∧ Segment prev next h (some p) (next a) stop l

/-- `head` is the head of a list of these cells. -/
structure Linked (prev next : α → Option Nat) (h : Heap α) (head : Option Nat) (l : List (Nat × α)) : Prop where
  segment : Segment prev next h none head none l
  nodup : (l.map Prod.fst).Nodup

variable {prev next : α → Option Nat} {h h' : Heap α} {before head stop : Option Nat} {p q : Nat}
  {a a' : α} {l l₁ l₂ : List (Nat × α)}

namespace Segment

theorem append_iff : Segment prev next h before head stop (l₁ ++ l₂) ↔
    ∃ mid, Segment prev next h before head mid l₁ ∧
      Segment prev next h ((l₁.map Prod.fst).getLast?.or before) mid stop l₂ := by
  induction l₁ generalizing before head with
  | nil =>
      constructor
      · exact fun hs => ⟨head, rfl, hs⟩
      · rintro ⟨mid, rfl, hs⟩
        exact hs
  | cons x l₁ ih =>
      obtain ⟨p, a⟩ := x
      have hlast : (((p, a) :: l₁).map Prod.fst).getLast?.or before = (l₁.map Prod.fst).getLast?.or (some p) := by
        rw [List.map_cons, List.getLast?_cons]
        cases (l₁.map Prod.fst).getLast? <;> rfl
      rw [hlast]
      constructor
      · rintro ⟨hhead, hread, hprev, hs⟩
        obtain ⟨mid, h₁, h₂⟩ := ih.mp hs
        exact ⟨mid, ⟨hhead, hread, hprev, h₁⟩, h₂⟩
      · rintro ⟨mid, ⟨hhead, hread, hprev, h₁⟩, h₂⟩
        exact ⟨hhead, hread, hprev, ih.mpr ⟨mid, h₁, h₂⟩⟩

theorem read (hs : Segment prev next h before head stop l) : ∀ x ∈ l, h.read x.1 = some x.2 := by
  induction l generalizing before head with
  | nil => exact nofun
  | cons x l ih =>
      obtain ⟨-, hread, -, hs⟩ := hs
      exact List.forall_mem_cons.mpr ⟨hread, ih hs⟩

/-- Only the cells of the segment matter. -/
theorem frame (hs : Segment prev next h before head stop l) (hread : ∀ x ∈ l, h'.read x.1 = h.read x.1) :
    Segment prev next h' before head stop l := by
  induction l generalizing before head with
  | nil => exact hs
  | cons x l ih =>
      obtain ⟨hx, hl⟩ := List.forall_mem_cons.mp hread
      obtain ⟨hhead, hcell, hprev, hs⟩ := hs
      exact ⟨hhead, hx.trans hcell, hprev, ih hs hl⟩

theorem head_eq (hs : Segment prev next h before head none l) : head = (l.map Prod.fst).head? := by
  cases l with
  | nil => exact hs
  | cons x l => exact hs.1

end Segment

namespace Linked

theorem nil : Linked prev next h none [] := ⟨rfl, List.nodup_nil⟩

theorem read (hl : Linked prev next h head l) : ∀ x ∈ l, h.read x.1 = some x.2 := hl.segment.read

theorem head_eq (hl : Linked prev next h head l) : head = (l.map Prod.fst).head? := hl.segment.head_eq

theorem frame (hl : Linked prev next h head l) (hread : ∀ x ∈ l, h'.read x.1 = h.read x.1) :
    Linked prev next h' head l := ⟨hl.segment.frame hread, hl.nodup⟩

/-- The list has no more cells than there are. -/
theorem length_le (hl : Linked prev next h head l) : l.length ≤ h.size := by
  have hsub : l.map Prod.fst ⊆ List.range h.size := by
    intro p hp
    obtain ⟨x, hx, rfl⟩ := List.mem_map.mp hp
    exact List.mem_range.mpr (Heap.lt_size_of_read (hl.read x hx))
  have hle := (hl.nodup.subperm hsub).length_le
  rwa [List.length_range, List.length_map] at hle

/-- The pointers of a cell. -/
theorem pointers (hl : Linked prev next h head (l₁ ++ (p, a) :: l₂)) :
    h.read p = some a ∧ prev a = (l₁.map Prod.fst).getLast? ∧ next a = (l₂.map Prod.fst).head? := by
  obtain ⟨mid, -, -, hread, hprev, hs⟩ := Segment.append_iff.mp hl.segment
  exact ⟨hread, hprev.trans (Option.or_none), hs.head_eq⟩

theorem not_mem (hl : Linked prev next h head (l₁ ++ (p, a) :: l₂)) : ∀ x ∈ l₁ ++ l₂, x.1 ≠ p := by
  have hnd := hl.nodup
  rw [List.map_append, List.map_cons, List.nodup_middle, ← List.map_append] at hnd
  intro x hx he
  exact (List.nodup_cons.mp hnd).1 (List.mem_map.mpr ⟨x, hx, he⟩)

/-- **A cell gets another content.** -/
theorem set (hl : Linked prev next h head (l₁ ++ (p, a) :: l₂)) (a' : α) (hprev : prev a' = prev a)
    (hnext : next a' = next a) :
    ∃ h', h.write p a' = some h' ∧ Linked prev next h' head (l₁ ++ (p, a') :: l₂) ∧ h'.size = h.size ∧
      ∀ q, q ≠ p → h'.read q = h.read q := by
  obtain ⟨hread, -, -⟩ := hl.pointers
  obtain ⟨h', hwrite, hsize, hreads⟩ := Heap.write_eq hread (b := a')
  have hother : ∀ q, q ≠ p → h'.read q = h.read q := fun q hq => by rw [hreads, if_neg hq]
  have hout := hl.not_mem
  refine ⟨h', hwrite, ⟨?_, ?_⟩, hsize, hother⟩
  · obtain ⟨mid, h₁, hmid, -, hp, h₂⟩ := Segment.append_iff.mp hl.segment
    refine Segment.append_iff.mpr ⟨mid, h₁.frame fun x hx => hother _ (hout x (List.mem_append_left _ hx)), ?_⟩
    refine ⟨hmid, (hreads p).trans (if_pos rfl), hprev.trans hp, ?_⟩
    rw [hnext]
    exact h₂.frame fun x hx => hother _ (hout x (List.mem_append_right _ hx))
  · have hnd := hl.nodup
    rwa [List.map_append, List.map_cons] at hnd ⊢

/-- **The last cell is linked** to a segment that points back to it. -/
theorem link (hl : Linked prev next h head (l₁ ++ [(p, a)])) (hs : Segment prev next h' (some p) (some q) none l₂)
    (hnd : (l₂.map Prod.fst).Nodup) (hdisj : ∀ x ∈ l₁ ++ [(p, a)], ∀ y ∈ l₂, x.1 ≠ y.1)
    (hprev : prev a' = prev a) (hnext : next a' = some q) (hp : h'.read p = some a')
    (hread : ∀ x ∈ l₁, h'.read x.1 = h.read x.1) : Linked prev next h' head (l₁ ++ (p, a') :: l₂) := by
  constructor
  · obtain ⟨mid, h₁, hmid, -, hpa, -⟩ := Segment.append_iff.mp hl.segment
    refine Segment.append_iff.mpr ⟨mid, h₁.frame hread, hmid, hp, hprev.trans hpa, ?_⟩
    rwa [hnext]
  · have hnd' := List.Nodup.append hl.nodup hnd (by
      intro r hr hr'
      obtain ⟨x, hx, rfl⟩ := List.mem_map.mp hr
      obtain ⟨y, hy, heq⟩ := List.mem_map.mp hr'
      exact hdisj x hx y hy heq.symm)
    simpa using hnd'

end Linked

end Memory
