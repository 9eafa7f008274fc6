import Mathlib.Algebra.Order.Ring.Nat
import Mathlib.Data.List.Nodup
import Mathlib.Data.List.Perm.Subperm
import Mathlib.Tactic.SplitIfs

/-!
# `Lib.Memory` — allocated cells that are freed once, and singly linked chains of them

A heap lists its cells in the order of their allocation; a pointer is a place in this list. A freed cell stays
in the list without a content, so reading it, writing it and freeing it again have no outcome. `Since h₀ h ps`
says what happened between two heaps: the cells of `h₀` are as they were, and of the others exactly `ps` are
not freed yet. `Chain` follows the pointers from a head.
-/

namespace Memory

variable {α : Type*}

/-- The cells allocated so far, freed ones without a content. -/
@[ext]
structure Heap (α : Type*) where
  cells : List (Option α)

namespace Heap

def empty : Heap α := ⟨[]⟩

/-- The number of cells allocated so far, the next pointer. -/
def size (h : Heap α) : Nat := h.cells.length

def read (h : Heap α) (p : Nat) : Option α := (h.cells[p]?).join

def alloc (h : Heap α) (a : α) : Nat × Heap α := (h.size, ⟨h.cells ++ [some a]⟩)

/-- Writing a cell that is not live has no outcome. -/
def write (h : Heap α) (p : Nat) (a : α) : Option (Heap α) :=
  (h.read p).map fun _ => ⟨h.cells.set p (some a)⟩

/-- Freeing a cell that is not live has no outcome. -/
def free (h : Heap α) (p : Nat) : Option (Heap α) :=
  (h.read p).map fun _ => ⟨h.cells.set p none⟩

theorem lt_size_of_read {h : Heap α} {p : Nat} {a : α} (hp : h.read p = some a) : p < h.size := by
  by_contra hlt
  rw [read, List.getElem?_eq_none (Nat.not_lt.mp hlt)] at hp
  exact nomatch hp

@[simp] theorem size_alloc (h : Heap α) (a : α) : (h.alloc a).2.size = h.size + 1 := by
  simp [alloc, size]

theorem read_alloc (h : Heap α) (a : α) (q : Nat) :
    (h.alloc a).2.read q = if q = h.size then some a else h.read q := by
  unfold alloc read size
  dsimp only
  rcases Nat.lt_trichotomy q h.cells.length with hq | rfl | hq
  · rw [List.getElem?_append_left hq, if_neg hq.ne]
  · simp
  · rw [if_neg hq.ne', List.getElem?_eq_none (by simp; omega), List.getElem?_eq_none hq.le]

/-- What a write leaves. -/
theorem write_eq {h : Heap α} {p : Nat} {a b : α} (hp : h.read p = some a) :
    ∃ h', h.write p b = some h' ∧ h'.size = h.size ∧
      ∀ q, h'.read q = if q = p then some b else h.read q := by
  have hlt : p < h.cells.length := lt_size_of_read hp
  refine ⟨_, by rw [write, hp]; rfl, List.length_set, fun q => ?_⟩
  unfold read
  dsimp only
  rw [List.getElem?_set]
  by_cases hqp : p = q
  · rw [if_pos hqp, if_pos (hqp ▸ hlt), if_pos hqp.symm]
    rfl
  · rw [if_neg hqp, if_neg (Ne.symm hqp)]

/-- What freeing leaves. -/
theorem free_eq {h : Heap α} {p : Nat} {a : α} (hp : h.read p = some a) :
    ∃ h', h.free p = some h' ∧ h'.size = h.size ∧
      ∀ q, h'.read q = if q = p then none else h.read q := by
  have hlt : p < h.cells.length := lt_size_of_read hp
  refine ⟨_, by rw [free, hp]; rfl, List.length_set, fun q => ?_⟩
  unfold read
  dsimp only
  rw [List.getElem?_set]
  by_cases hqp : p = q
  · rw [if_pos hqp, if_pos (hqp ▸ hlt), if_pos hqp.symm]
    rfl
  · rw [if_neg hqp, if_neg (Ne.symm hqp)]

end Heap

/-! ## What is left of the cells of a stretch -/

/-- The cells of `h₀` are as they were; of those allocated since then exactly `ps` are live. -/
structure Since (h₀ h : Heap α) (ps : List Nat) : Prop where
  grown : h₀.size ≤ h.size
  old : ∀ p < h₀.size, h.read p = h₀.read p
  live : ∀ p, h₀.size ≤ p → ((h.read p).isSome ↔ p ∈ ps)
  new : ∀ p ∈ ps, h₀.size ≤ p

namespace Since

variable {h₀ h h' : Heap α} {ps : List Nat} {p : Nat} {a b : α}

theorem refl (h : Heap α) : Since h h [] := by
  refine ⟨Nat.le_refl _, fun _ _ => rfl, fun p hp => ?_, nofun⟩
  have hnone : h.read p = none := by
    rw [Heap.read, List.getElem?_eq_none hp]
    rfl
  simp [hnone]

theorem congr {qs : List Nat} (h₁ : Since h₀ h ps) (hqs : ∀ p, p ∈ qs ↔ p ∈ ps) : Since h₀ h qs :=
  ⟨h₁.grown, h₁.old, fun p hp => (h₁.live p hp).trans (hqs p).symm, fun p hp => h₁.new p ((hqs p).mp hp)⟩

theorem read (h₁ : Since h₀ h ps) (hp : p ∈ ps) : ∃ a, h.read p = some a :=
  Option.isSome_iff_exists.mp ((h₁.live p (h₁.new p hp)).mpr hp)

theorem size_not_mem (h₁ : Since h₀ h ps) : h.size ∉ ps := by
  intro hmem
  obtain ⟨a, ha⟩ := h₁.read hmem
  exact Nat.lt_irrefl _ (Heap.lt_size_of_read ha)

theorem alloc (h₁ : Since h₀ h ps) (a : α) : Since h₀ (h.alloc a).2 (ps ++ [h.size]) := by
  refine ⟨?_, fun p hp => ?_, fun p hp => ?_, fun p hp => ?_⟩
  · rw [Heap.size_alloc]
    exact h₁.grown.trans (Nat.le_succ _)
  · rw [Heap.read_alloc, if_neg (hp.trans_le h₁.grown).ne]
    exact h₁.old p hp
  · rw [Heap.read_alloc, List.mem_append, List.mem_singleton]
    split_ifs with hps
    · simp [hps]
    · simp [hps, h₁.live p hp]
  · rcases List.mem_append.mp hp with hp | hp
    · exact h₁.new p hp
    · rw [List.mem_singleton.mp hp]
      exact h₁.grown

theorem write (h₁ : Since h₀ h ps) (hp : p ∈ ps) (hsize : h'.size = h.size)
    (hread : ∀ q, h'.read q = if q = p then some b else h.read q) : Since h₀ h' ps := by
  have hnew := h₁.new p hp
  refine ⟨hsize.symm ▸ h₁.grown, fun q hq => ?_, fun q hq => ?_, h₁.new⟩
  · rw [hread, if_neg (hq.trans_le hnew).ne]
    exact h₁.old q hq
  · rw [hread]
    split_ifs with hqp
    · simp [hqp, hp]
    · exact h₁.live q hq

theorem free (h₁ : Since h₀ h (p :: ps)) (hp : p ∉ ps) (hsize : h'.size = h.size)
    (hread : ∀ q, h'.read q = if q = p then none else h.read q) : Since h₀ h' ps := by
  have hnew := h₁.new p List.mem_cons_self
  refine ⟨hsize.symm ▸ h₁.grown, fun q hq => ?_, fun q hq => ?_,
    fun q hq => h₁.new q (List.mem_cons_of_mem p hq)⟩
  · rw [hread, if_neg (hq.trans_le hnew).ne]
    exact h₁.old q hq
  · rw [hread]
    split_ifs with hqp
    · simp [hqp, hp]
    · rw [h₁.live q hq, List.mem_cons]
      simp [hqp]

/-- Live cells of a stretch are fewer than the cells there are. -/
theorem length_le (h₁ : Since h₀ h ps) (hnd : ps.Nodup) : ps.length ≤ h.size := by
  have hsub : ps ⊆ List.range h.size := by
    intro p hp
    obtain ⟨a, ha⟩ := h₁.read hp
    exact List.mem_range.mpr (Heap.lt_size_of_read ha)
  have hle := (hnd.subperm hsub).length_le
  rwa [List.length_range] at hle

end Since

/-! ## Chains -/

/-- From `head` on, the pointers `next` lead through these cells with these contents, and end. -/
def Chain (next : α → Option Nat) (h : Heap α) : Option Nat → List (Nat × α) → Prop
  | head, [] => head = none
  | head, (p, a) :: l => head = some p ∧ h.read p = some a ∧ Chain next h (next a) l

namespace Chain

variable {next : α → Option Nat} {h h' : Heap α} {head : Option Nat} {l : List (Nat × α)}

theorem head_eq (hc : Chain next h head l) : head = (l.map Prod.fst).head? := by
  cases l with
  | nil => exact hc
  | cons x l => exact hc.1

theorem read (hc : Chain next h head l) : ∀ x ∈ l, h.read x.1 = some x.2 := by
  induction l generalizing head with
  | nil => exact nofun
  | cons y l ih =>
      obtain ⟨-, hy, hrest⟩ := hc
      intro x hx
      rcases List.mem_cons.mp hx with rfl | hx
      · exact hy
      · exact ih hrest x hx

/-- Only the cells of the chain matter. -/
theorem frame (hc : Chain next h head l) (hread : ∀ x ∈ l, h'.read x.1 = h.read x.1) :
    Chain next h' head l := by
  induction l generalizing head with
  | nil => exact hc
  | cons y l ih =>
      obtain ⟨hhead, hy, hrest⟩ := hc
      refine ⟨hhead, (hread y List.mem_cons_self).trans hy, ih hrest fun x hx => ?_⟩
      exact hread x (List.mem_cons_of_mem y hx)

/-- **One more cell at the end**: the cell that was the last now points to it. -/
theorem concat {l : List (Nat × α)} {t q : Nat} {a a' b : α} (hc : Chain next h head (l ++ [(t, a)]))
    (hread : ∀ x ∈ l, h'.read x.1 = h.read x.1) (ht : h'.read t = some a')
    (hnext : next a' = some q) (hq : h'.read q = some b) (hend : next b = none) :
    Chain next h' head (l ++ [(t, a'), (q, b)]) := by
  induction l generalizing head with
  | nil => exact ⟨hc.1, ht, hnext, hq, hend⟩
  | cons y l ih =>
      obtain ⟨hhead, hy, hrest⟩ := hc
      refine ⟨hhead, (hread y List.mem_cons_self).trans hy, ?_⟩
      exact ih hrest fun x hx => hread x (List.mem_cons_of_mem y hx)

end Chain

end Memory
