import Mathlib.Algebra.Order.Ring.Nat
import Mathlib.Data.List.Infix
import Mathlib.Data.List.Nodup
import Mathlib.Tactic.SplitIfs

/-!
# `Lib.Trees` — directory trees as lists of locations

A location is the list of the names that lead to it, the root is `[]`. A `Tree` lists its entries in the order
they were made; every entry has a name, and stands in a directory. `make` adds a directory at the end, `prune`
takes out a location with everything below. What was only added below a new location goes away with it
(`prune_grown`).
-/

namespace Trees

/-- What a location holds. -/
inductive Entry (β : Type*) where
  | directory
  | file (content : β)

variable {α β : Type*} [DecidableEq α]

/-- The entry at a location; the root is a directory. -/
def lookup (es : List (List α × Entry β)) (l : List α) : Option (Entry β) :=
  if l = [] then some .directory else (es.find? fun e => e.1 == l).map Prod.snd

@[ext]
structure Tree (α β : Type*) [DecidableEq α] where
  entries : List (List α × Entry β)
  named : ∀ e ∈ entries, e.1 ≠ []
  nodup : (entries.map Prod.fst).Nodup
  parent : ∀ e ∈ entries, lookup entries e.1.dropLast = some .directory

namespace Tree

variable {t t' t₀ : Tree α β} {l k : List α} {e : Entry β}

/-- The root alone. -/
def empty : Tree α β where
  entries := []
  named := nofun
  nodup := List.nodup_nil
  parent := nofun

def find (t : Tree α β) (l : List α) : Option (Entry β) := lookup t.entries l

@[simp] theorem find_nil (t : Tree α β) : t.find [] = some .directory := by
  rw [find, lookup, if_pos rfl]

theorem find_eq (hl : l ≠ []) : t.find l = (t.entries.find? fun e => e.1 == l).map Prod.snd := by
  rw [find, lookup, if_neg hl]

theorem mem_of_find (hl : l ≠ []) (h : t.find l = some e) : (l, e) ∈ t.entries := by
  rw [find_eq hl] at h
  obtain ⟨x, hx, rfl⟩ := Option.map_eq_some_iff.mp h
  have hkey : x.1 = l := by simpa using List.find?_some hx
  exact hkey ▸ List.mem_of_find?_eq_some hx

theorem find_of_mem (h : (l, e) ∈ t.entries) : t.find l = some e := by
  have hl : l ≠ [] := t.named _ h
  rw [find_eq hl]
  obtain ⟨x, hx⟩ : ∃ x, t.entries.find? (fun e => e.1 == l) = some x := by
    rw [← Option.isSome_iff_exists, List.find?_isSome]
    exact ⟨_, h, by simp⟩
  have hkey : x.1 = l := by simpa using List.find?_some hx
  have hsame : x = (l, e) :=
    List.inj_on_of_nodup_map t.nodup (List.mem_of_find?_eq_some hx) h hkey
  rw [hx, hsame]
  rfl

theorem find_dropLast (hl : l ≠ []) (h : t.find l = some e) : t.find l.dropLast = some .directory :=
  t.parent _ (mem_of_find hl h)

/-- Above an entry there are directories. -/
theorem find_above (h : t.find l = some e) (hk : k <+: l) (hne : k ≠ l) :
    t.find k = some .directory := by
  induction l using List.reverseRecOn generalizing e with
  | nil => exact absurd (List.prefix_nil.mp hk) hne
  | append_singleton l n ih =>
      have hparent := find_dropLast (by simp) h
      rw [List.dropLast_concat] at hparent
      rcases List.prefix_concat_iff.mp hk with rfl | hk
      · exact absurd rfl hne
      · by_cases hkl : k = l
        · rw [hkl]
          exact hparent
        · exact ih hparent hk hkl

def isDirectory (t : Tree α β) (l : List α) : Bool :=
  match t.find l with
  | some .directory => true
  | _ => false

theorem isDirectory_iff : t.isDirectory l = true ↔ t.find l = some .directory := by
  unfold isDirectory
  cases hfind : t.find l with
  | none => simp
  | some e => cases e <;> simp

/-- The names in a directory. -/
def children (t : Tree α β) (l : List α) : List α :=
  t.entries.filterMap fun e => if e.1.dropLast = l then e.1.getLast? else none

theorem mem_children {n : α} : n ∈ t.children l ↔ (t.find (l ++ [n])).isSome := by
  unfold children
  rw [List.mem_filterMap]
  constructor
  · rintro ⟨⟨k, e⟩, hmem, hif⟩
    split_ifs at hif with hk
    have hkey : k = l ++ [n] := by
      have hlast := List.dropLast_append_getLast? n hif
      rw [← hk, hlast]
    rw [find_of_mem (hkey ▸ hmem)]
    rfl
  · intro h
    obtain ⟨e, he⟩ := Option.isSome_iff_exists.mp h
    exact ⟨_, mem_of_find (by simp) he, by simp⟩

/-! ## Making a directory -/

/-- A new directory `n` in directory `l`. -/
def make (t : Tree α β) (l : List α) (n : α) (hdir : t.find l = some .directory)
    (hnew : t.find (l ++ [n]) = none) : Tree α β where
  entries := t.entries ++ [(l ++ [n], .directory)]
  named := by
    intro e he
    rcases List.mem_append.mp he with he | he
    · exact t.named e he
    · rw [List.mem_singleton.mp he]
      simp
  nodup := by
    rw [List.map_append, List.nodup_append_comm]
    show ((l ++ [n]) :: t.entries.map Prod.fst).Nodup
    refine List.nodup_cons.mpr ⟨?_, t.nodup⟩
    intro hmem
    obtain ⟨e, he, hkey⟩ := List.mem_map.mp hmem
    have hfind : t.find e.1 = some e.2 := find_of_mem he
    rw [hkey] at hfind
    exact nomatch hnew.symm.trans hfind
  parent := by
    have hkeep : ∀ {k e}, t.find k = some e →
        lookup (t.entries ++ [(l ++ [n], .directory)]) k = some e := by
      intro k e hk
      unfold find lookup at hk
      unfold lookup
      split_ifs at hk ⊢
      · exact hk
      · rw [List.find?_append]
        obtain ⟨x, hx, rfl⟩ := Option.map_eq_some_iff.mp hk
        rw [hx]
        rfl
    intro e he
    rcases List.mem_append.mp he with he | he
    · exact hkeep (t.parent e he)
    · rw [List.mem_singleton.mp he, List.dropLast_concat]
      exact hkeep hdir

theorem find_make {n : α} (hdir : t.find l = some .directory) (hnew : t.find (l ++ [n]) = none)
    (k : List α) :
    (t.make l n hdir hnew).find k = if k = l ++ [n] then some .directory else t.find k := by
  by_cases hk : k = []
  · rw [hk, find_nil, find_nil, ite_self]
  rw [find_eq hk]
  show ((t.entries ++ [(l ++ [n], Entry.directory)]).find?
    fun e : List α × Entry β => e.1 == k).map Prod.snd = _
  rw [List.find?_append]
  by_cases hkl : k = l ++ [n]
  · subst hkl
    rw [find_eq hk, Option.map_eq_none_iff] at hnew
    rw [hnew, if_pos rfl]
    simp
  · rw [if_neg hkl, find_eq hk, List.find?_cons_of_neg (by simpa using Ne.symm hkl), List.find?_nil,
      Option.or_none]

/-! ## Taking out a location -/

theorem find?_filter_keep {es : List (List α × Entry β)} (hout : ¬ l <+: k) :
    (es.filter fun e => !decide (l <+: e.1)).find? (fun e => e.1 == k) =
      es.find? fun e => e.1 == k := by
  induction es with
  | nil => rfl
  | cons x es ih =>
      by_cases hx : x.1 = k
      · have hkeep : ¬ l <+: x.1 := hx ▸ hout
        rw [List.filter_cons_of_pos (by simpa using hkeep), List.find?_cons_of_pos (by simpa using hx),
          List.find?_cons_of_pos (by simpa using hx)]
      · rw [List.find?_cons_of_neg (by simpa using hx), List.filter_cons]
        split_ifs
        · rw [List.find?_cons_of_neg (by simpa using hx), ih]
        · exact ih

/-- The tree without `l` and everything below. -/
def prune (t : Tree α β) (l : List α) : Tree α β where
  entries := t.entries.filter fun e => !decide (l <+: e.1)
  named e he := t.named e (List.mem_filter.mp he).1
  nodup := t.nodup.sublist (List.filter_sublist.map Prod.fst)
  parent := by
    intro e he
    obtain ⟨he, hout⟩ := List.mem_filter.mp he
    have hparent := t.parent e he
    have hout' : ¬ l <+: e.1.dropLast := by
      intro hl
      have hin : l <+: e.1 := hl.trans (List.dropLast_prefix e.1)
      simp [hin] at hout
    unfold lookup at hparent ⊢
    split_ifs at hparent ⊢
    · rfl
    · rw [find?_filter_keep hout']
      exact hparent

theorem find_prune (hl : l ≠ []) (k : List α) :
    (t.prune l).find k = if l <+: k then none else t.find k := by
  by_cases hk : k = []
  · have hout : ¬ l <+: k := fun h => hl (List.prefix_nil.mp (hk ▸ h))
    rw [if_neg hout, hk, find_nil, find_nil]
  rw [find_eq hk]
  show ((t.entries.filter fun e => !decide (l <+: e.1)).find? fun e => e.1 == k).map Prod.snd = _
  split_ifs with hlk
  · rw [Option.map_eq_none_iff, List.find?_eq_none]
    intro x hx hkey
    obtain ⟨-, hout⟩ := List.mem_filter.mp hx
    rw [beq_iff_eq.mp hkey] at hout
    simp [hlk] at hout
  · rw [find_eq hk, find?_filter_keep hlk]

/-- Taking out a part first makes no difference. -/
theorem prune_prune (h : l <+: k) : (t.prune k).prune l = t.prune l := by
  refine Tree.ext ?_
  show (t.entries.filter _).filter _ = t.entries.filter _
  rw [List.filter_filter]
  refine List.filter_congr fun e _ => ?_
  by_cases hl : l <+: e.1
  · simp [hl]
  · have hk : ¬ k <+: e.1 := fun hk => hl (h.trans hk)
    simp [hl, hk]

/-! ## Growing below a location -/

/-- What `t` has, `t'` has too. -/
def Includes (t t' : Tree α β) : Prop := ∀ l e, t.find l = some e → t'.find l = some e

theorem Includes.trans {t'' : Tree α β} (h : Includes t t') (h' : Includes t' t'') : Includes t t'' :=
  fun l e hl => h' l e (h l e hl)

theorem includes_make {n : α} (hdir : t.find l = some .directory) (hnew : t.find (l ++ [n]) = none) :
    Includes t (t.make l n hdir hnew) := by
  intro k e hk
  rw [find_make, if_neg]
  · exact hk
  · rintro rfl
    exact nomatch hnew.symm.trans hk

/-- `t'` is `t` with more entries, all of them at `l` or below. -/
def Grown (t t' : Tree α β) (l : List α) : Prop :=
  ∃ new, t'.entries = t.entries ++ new ∧ ∀ e ∈ new, l <+: e.1

theorem Grown.refl (t : Tree α β) (l : List α) : Grown t t l := ⟨[], by simp, nofun⟩

theorem Grown.make {n : α} (h : Grown t t' l) (hdir : t'.find k = some .directory)
    (hnew : t'.find (k ++ [n]) = none) (hin : l <+: k ++ [n]) : Grown t (t'.make k n hdir hnew) l := by
  obtain ⟨new, hentries, hbelow⟩ := h
  refine ⟨new ++ [(k ++ [n], .directory)], ?_, ?_⟩
  · rw [← List.append_assoc, ← hentries]
    rfl
  · intro e he
    rcases List.mem_append.mp he with he | he
    · exact hbelow e he
    · rw [List.mem_singleton.mp he]
      exact hin

/-- Below a location without an entry there is nothing. -/
theorem not_prefix_of_find (hl : t.find l = none) (he : t.find k = some e) : ¬ l <+: k := by
  intro hlk
  by_cases hne : l = k
  · subst hne
    exact nomatch hl.symm.trans he
  · exact nomatch hl.symm.trans (find_above he hlk hne)

/-- **What grew below a new location goes away with it.** -/
theorem prune_grown (h : Grown t t' l) (hl : t.find l = none) : t'.prune l = t := by
  obtain ⟨new, hentries, hnew⟩ := h
  refine Tree.ext ?_
  show t'.entries.filter _ = t.entries
  rw [hentries, List.filter_append]
  have hold : t.entries.filter (fun e => !decide (l <+: e.1)) = t.entries := by
    refine List.filter_eq_self.mpr fun e he => ?_
    have hout := not_prefix_of_find hl (find_of_mem he)
    simp [hout]
  have hgone : new.filter (fun e => !decide (l <+: e.1)) = [] := by
    refine List.filter_eq_nil_iff.mpr fun e he => ?_
    simp [hnew e he]
  rw [hold, hgone, List.append_nil]

/-- `t` has lost entries below directory `l`, none of them of `t₀`: now it is `t'`. -/
structure Emptied (t₀ t t' : Tree α β) (l : List α) : Prop where
  base : Includes t₀ t'
  fewer : Includes t' t
  directory : t'.find l = some .directory
  rest : t'.prune l = t.prune l

theorem Emptied.refl (h : Includes t₀ t) (hl : t.find l = some .directory) : Emptied t₀ t t l :=
  ⟨h, fun _ _ h => h, hl, rfl⟩

theorem Emptied.prune {a : α} (h : Emptied t₀ t t' l) (hnew : t₀.find l = none) :
    Emptied t₀ t (t'.prune (l ++ [a])) l := by
  have hfind := find_prune (t := t') (l := l ++ [a]) (by simp)
  have hbelow : ∀ k, l ++ [a] <+: k → l <+: k := fun k hk => (List.prefix_append l [a]).trans hk
  refine ⟨?_, ?_, ?_, ?_⟩
  · intro k e hk
    rw [hfind, if_neg fun hin => not_prefix_of_find hnew hk (hbelow k hin)]
    exact h.base k e hk
  · intro k e hk
    rw [hfind] at hk
    split_ifs at hk
    exact h.fewer k e hk
  · have hout : ¬ l ++ [a] <+: l := by
      intro hin
      have hlength := hin.length_le
      simp at hlength
    rw [hfind, if_neg hout]
    exact h.directory
  · rw [prune_prune (List.prefix_append l [a]), h.rest]

/-- No entry is deeper. -/
def depth (t : Tree α β) : Nat := (t.entries.map fun e => e.1.length).foldr max 0

theorem length_le_depth (h : t.find l = some e) : l.length ≤ t.depth := by
  by_cases hl : l = []
  · rw [hl]
    exact Nat.zero_le _
  have hmem := mem_of_find hl h
  unfold depth
  generalize t.entries = es at hmem ⊢
  induction es with
  | nil => exact nomatch hmem
  | cons x es ih =>
      rw [List.map_cons, List.foldr_cons]
      rcases List.mem_cons.mp hmem with hx | hmem
      · rw [← hx]
        exact Nat.le_max_left _ _
      · exact (ih hmem).trans (Nat.le_max_right _ _)

end Tree

end Trees
