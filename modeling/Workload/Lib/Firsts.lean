import Mathlib.Data.List.Infix

/-!
# `Lib.Firsts` — the first element with each key

`firsts key l` goes through `l` and keeps an element when its key has not come before; an element without a key
is left out. Two ways to assign keys can keep the same elements although they differ.

* **`map_firsts_eq_iff`** — two keys give the same list behind every prefix exactly when they agree on every
  element that is new for one of them.
-/

namespace Firsts

variable {α β : Type*} {key f g : α → Option β} {l : List α} {a : α}

/-- Behind `l` the element `a` brings no new key. -/
def Old (key : α → Option β) (l : List α) (a : α) : Prop := key a = none ∨ key a ∈ l.map key

/-- The two keys agree on each element, or it is old for both. -/
def Agree (f g : α → Option β) (l : List α) : Prop :=
  ∀ p a, p ++ [a] <+: l → f a = g a ∨ Old f p a ∧ Old g p a

theorem agree_concat : Agree f g (l ++ [a]) ↔ Agree f g l ∧ (f a = g a ∨ Old f l a ∧ Old g l a) := by
  constructor
  · exact fun h => ⟨fun p b hp => h p b (hp.trans (List.prefix_append l [a])), h l a List.prefix_rfl⟩
  · rintro ⟨hl, ha⟩ p b hp
    rcases List.prefix_concat_iff.mp hp with heq | hp
    · obtain ⟨rfl, hb⟩ := List.append_inj' heq rfl
      obtain rfl := List.singleton_inj.mp hb
      exact ha
    · exact hl p b hp

variable [DecidableEq β]

/-- Keep `a` if it has a key that is not there yet. -/
def keep (key : α → Option β) (kept : List α) (a : α) : List α :=
  if key a = none ∨ key a ∈ kept.map key then kept else kept ++ [a]

/-- The elements of `l` with a new key. -/
def firsts (key : α → Option β) (l : List α) : List α := l.foldl (keep key) []

theorem mem_map_firsts {b : Option β} (hb : b ≠ none) : b ∈ (firsts key l).map key ↔ b ∈ l.map key := by
  induction l using List.reverseRecOn with
  | nil => exact Iff.rfl
  | append_singleton l a ih =>
      rw [firsts, List.foldl_concat, ← firsts, keep, List.map_append, List.mem_append, ← ih]
      split_ifs with hold
      · refine ⟨Or.inl, fun h => h.elim id fun hmem => ?_⟩
        obtain rfl : b = key a := List.mem_singleton.mp hmem
        exact hold.resolve_left hb
      · rw [List.map_append, List.mem_append]

theorem mem_keep_iff : key a = none ∨ key a ∈ (firsts key l).map key ↔ Old key l a := by
  by_cases hnone : key a = none
  · exact iff_of_true (Or.inl hnone) (Or.inl hnone)
  · unfold Old
    rw [mem_map_firsts hnone]

theorem firsts_concat_of_old (h : Old key l a) : firsts key (l ++ [a]) = firsts key l := by
  rw [firsts, List.foldl_concat, ← firsts, keep, if_pos (mem_keep_iff.mpr h)]

theorem firsts_concat_of_new (h : ¬ Old key l a) : firsts key (l ++ [a]) = firsts key l ++ [a] := by
  rw [firsts, List.foldl_concat, ← firsts, keep, if_neg fun hkeep => h (mem_keep_iff.mp hkeep)]

theorem firsts_sublist : (firsts key l).Sublist l := by
  induction l using List.reverseRecOn with
  | nil => exact List.Sublist.slnil
  | append_singleton l a ih =>
      by_cases hold : Old key l a
      · rw [firsts_concat_of_old hold]
        exact ih.trans (List.sublist_append_left l [a])
      · rw [firsts_concat_of_new hold]
        exact ih.append (List.Sublist.refl [a])

/-- The first element of a list is the first one with its key. -/
theorem head?_firsts (hl : ∀ a ∈ l, key a ≠ none) : (firsts key l).head? = l.head? := by
  induction l using List.reverseRecOn with
  | nil => rfl
  | append_singleton l a ih =>
      have ih := ih fun b hb => hl b (List.mem_append_left _ hb)
      by_cases hold : Old key l a
      · have hne : l ≠ [] := by
          rintro rfl
          exact hold.elim (hl a List.mem_concat_self) List.not_mem_nil
        rw [firsts_concat_of_old hold, ih, List.head?_append_of_ne_nil l hne]
      · rw [firsts_concat_of_new hold, List.head?_append, List.head?_append, ih]

/-- Among the elements that are kept a key is found where it is found first. -/
theorem find?_firsts {b : β} : (firsts key l).find? (fun a => key a == some b) =
    (l.filter fun a => key a == some b).head? := by
  induction l using List.reverseRecOn with
  | nil => rfl
  | append_singleton l a ih =>
      rw [List.filter_append, List.head?_append, ← ih]
      by_cases hold : Old key l a
      · rw [firsts_concat_of_old hold]
        by_cases hkey : key a = some b
        · -- the key has been found before
          have hmem : some b ∈ (firsts key l).map key := by
            rw [mem_map_firsts (Option.some_ne_none b), ← hkey]
            exact hold.resolve_left fun h => nomatch h.symm.trans hkey
          obtain ⟨c, hc, hcb⟩ := List.mem_map.mp hmem
          have hsome : ((firsts key l).find? fun a => key a == some b).isSome := by
            rw [List.find?_isSome]
            exact ⟨c, hc, by simp [hcb]⟩
          rw [Option.or_of_isSome hsome]
        · rw [List.filter_singleton, Bool.cond_eq_ite, if_neg (by simpa using hkey), List.head?_nil, Option.or_none]
      · rw [firsts_concat_of_new hold, List.find?_append, List.find?_singleton, List.filter_singleton,
          Bool.cond_eq_ite]
        split_ifs <;> rfl

/-- The same keys are behind the list. -/
theorem old_congr (hmap : (firsts f l).map f = (firsts g l).map g) (ha : f a = g a) : Old f l a ↔ Old g l a := by
  rw [← mem_keep_iff, ← mem_keep_iff, hmap, ha]

/-- **Where the keys agree, they keep the same elements under the same keys.** -/
theorem Agree.firsts_eq (h : Agree f g l) : firsts f l = firsts g l ∧ ∀ a ∈ firsts f l, f a = g a := by
  induction l using List.reverseRecOn with
  | nil => exact ⟨rfl, nofun⟩
  | append_singleton l a ih =>
      obtain ⟨hl, ha⟩ := agree_concat.mp h
      obtain ⟨hsame, hkeys⟩ := ih hl
      have hmap : (firsts f l).map f = (firsts g l).map g := by
        rw [← hsame]
        exact List.map_congr_left hkeys
      by_cases hold : Old f l a
      · have hold' : Old g l a := ha.elim (fun heq => (old_congr hmap heq).mp hold) And.right
        rw [firsts_concat_of_old hold, firsts_concat_of_old hold']
        exact ⟨hsame, hkeys⟩
      · have heq : f a = g a := ha.resolve_right fun hboth => hold hboth.1
        have hnew : ¬ Old g l a := fun hold' => hold ((old_congr hmap heq).mpr hold')
        rw [firsts_concat_of_new hold, firsts_concat_of_new hnew, hsame]
        refine ⟨rfl, fun b hb => ?_⟩
        rcases List.mem_append.mp hb with hb | hb
        · exact hkeys b (hsame ▸ hb)
        · rw [List.mem_singleton.mp hb]
          exact heq

/-- **Two keys give the same list behind every prefix** exactly when they agree. -/
theorem map_firsts_eq_iff : (∀ p, p <+: l → (firsts f p).map f = (firsts g p).map g) ↔ Agree f g l := by
  constructor
  · intro h p a hp
    have hbefore := h p ((List.prefix_append p [a]).trans hp)
    have hafter := h (p ++ [a]) hp
    have hlen := congrArg List.length hbefore
    have hlen' := congrArg List.length hafter
    simp only [List.length_map] at hlen hlen'
    by_cases hf : Old f p a <;> by_cases hg : Old g p a
    · exact Or.inr ⟨hf, hg⟩
    · -- new for one of them only: the lists get different lengths
      rw [firsts_concat_of_old hf, firsts_concat_of_new hg, List.length_append, List.length_singleton] at hlen'
      omega
    · rw [firsts_concat_of_new hf, firsts_concat_of_old hg, List.length_append, List.length_singleton] at hlen'
      omega
    · rw [firsts_concat_of_new hf, firsts_concat_of_new hg, List.map_append, List.map_append, hbefore] at hafter
      exact Or.inl (List.singleton_inj.mp (List.append_cancel_left hafter))
  · intro h p hp
    obtain ⟨hsame, hkeys⟩ := (show Agree f g p from fun q a hq => h q a (hq.trans hp)).firsts_eq
    rw [← hsame]
    exact List.map_congr_left hkeys

end Firsts
