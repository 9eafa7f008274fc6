import Mathlib.Data.List.Basic

/-!
# `Lib.Grouping` — groups counted from the end of a list

`groups n l` cuts a list so that every group but the first has `n` elements. `separate sep n l` is the same list
with `sep` between the groups, written by looking only at how many elements are still to come.

* **`intercalate_groups`** — the two agree.
* `length_of_mem_tail`, `length_head` — the lengths of the groups; `length_separate` — the length of the whole.
-/

namespace Grouping

variable {α : Type*} {n : Nat}

/-- `c` in front of the first group. -/
def consFirst (c : α) : List (List α) → List (List α)
  | [] => [[c]]
  | g :: gs => (c :: g) :: gs

/-- The groups of `l`, counted from its end. -/
def groups (n : Nat) : List α → List (List α)
  | [] => []
  | c :: rest => if n ∣ rest.length then [c] :: groups n rest else consFirst c (groups n rest)

/-- `l` with `sep` wherever a multiple of `n` elements is still to come. -/
def separate (sep : α) (n : Nat) : List α → List α
  | [] => []
  | c :: rest =>
      if rest ≠ [] ∧ n ∣ rest.length then c :: sep :: separate sep n rest else c :: separate sep n rest

theorem groups_eq_nil_iff {l : List α} : groups n l = [] ↔ l = [] := by
  cases l with
  | nil => exact iff_of_true rfl rfl
  | cons c rest =>
      refine iff_of_false ?_ (List.cons_ne_nil c rest)
      rw [groups]
      by_cases hdvd : n ∣ rest.length
      · rw [if_pos hdvd]
        exact List.cons_ne_nil _ _
      · rw [if_neg hdvd]
        cases groups n rest <;> exact List.cons_ne_nil _ _

theorem flatten_consFirst (c : α) (gs : List (List α)) : (consFirst c gs).flatten = c :: gs.flatten := by
  cases gs <;> rfl

theorem flatten_groups (n : Nat) (l : List α) : (groups n l).flatten = l := by
  induction l with
  | nil => rfl
  | cons c rest ih =>
      rw [groups]
      split_ifs
      · rw [List.flatten_cons, ih, List.singleton_append]
      · rw [flatten_consFirst, ih]

/-- The remainders before and behind a multiple of `n`. -/
theorem mod_of_dvd_succ (hn : 0 < n) {m : Nat} (h : n ∣ m + 1) : m % n + 1 = n := by
  have hlt := Nat.mod_lt m hn
  have hdvd : n ∣ m % n + 1 := by
    rw [Nat.dvd_iff_mod_eq_zero, ← Nat.add_mod_eq_add_mod_right 1 (Nat.mod_mod m n).symm]
    exact Nat.mod_eq_zero_of_dvd h
  exact Nat.le_antisymm hlt (Nat.le_of_dvd (Nat.succ_pos _) hdvd)

theorem succ_mod_of_not_dvd (hn : 0 < n) {m : Nat} (h : ¬ n ∣ m + 1) : (m + 1) % n = m % n + 1 := by
  have hlt := Nat.mod_lt m hn
  rw [Nat.add_mod_eq_add_mod_right 1 (Nat.mod_mod m n).symm]
  refine Nat.mod_eq_of_lt (Nat.lt_of_le_of_ne hlt fun heq => h ?_)
  rw [Nat.dvd_iff_mod_eq_zero, Nat.add_mod_eq_add_mod_right 1 (Nat.mod_mod m n).symm, heq, Nat.mod_self]

/-- The first group takes what the others leave over. -/
theorem length_head (hn : 0 < n) {l : List α} {g : List α} (hg : g ∈ (groups n l).head?) :
    g.length = (l.length - 1) % n + 1 := by
  induction l generalizing g with
  | nil => exact nomatch hg
  | cons c rest ih =>
      rw [groups] at hg
      rw [List.length_cons, Nat.add_sub_cancel]
      split_ifs at hg with hdvd
      · obtain rfl : [c] = g := Option.some.inj hg
        rw [Nat.mod_eq_zero_of_dvd hdvd, List.length_singleton]
      · -- the first group of the rest is not full
        cases hgs : groups n rest with
        | nil => exact absurd (groups_eq_nil_iff.mp hgs ▸ Nat.dvd_zero n) hdvd
        | cons g' gs =>
            rw [hgs] at hg
            obtain rfl : c :: g' = g := Option.some.inj hg
            obtain ⟨m, hm⟩ : ∃ m, rest.length = m + 1 := by
              refine Nat.exists_eq_succ_of_ne_zero fun hzero => hdvd ?_
              rw [hzero]
              exact Nat.dvd_zero n
            have hlen := ih (show g' ∈ (groups n rest).head? by rw [hgs]; rfl)
            rw [hm, Nat.add_sub_cancel] at hlen
            rw [hm] at hdvd
            rw [List.length_cons, hlen, hm, succ_mod_of_not_dvd hn hdvd]

theorem length_of_mem_tail (hn : 0 < n) {l : List α} {g : List α} (hg : g ∈ (groups n l).tail) :
    g.length = n := by
  induction l with
  | nil => exact nomatch hg
  | cons c rest ih =>
      rw [groups] at hg
      split_ifs at hg with hdvd
      · -- a new first group: the one behind it is full
        cases hgs : groups n rest with
        | nil =>
            rw [hgs] at hg
            exact nomatch hg
        | cons g' gs =>
            rw [hgs] at hg ih
            rcases List.mem_cons.mp hg with rfl | hg
            · have hlen := length_head hn (show g ∈ (groups n rest).head? by rw [hgs]; rfl)
              obtain ⟨m, hm⟩ : ∃ m, rest.length = m + 1 := by
                refine Nat.exists_eq_succ_of_ne_zero fun hzero => ?_
                rw [groups_eq_nil_iff.mpr (List.eq_nil_of_length_eq_zero hzero)] at hgs
                exact nomatch hgs
              rw [hm, Nat.add_sub_cancel] at hlen
              rw [hlen, mod_of_dvd_succ hn (hm ▸ hdvd)]
            · exact ih hg
      · cases hgs : groups n rest with
        | nil =>
            rw [hgs] at hg
            exact nomatch hg
        | cons g' gs =>
            rw [hgs] at hg ih
            exact ih hg

/-- **The separated list** is the groups with `sep` between them. -/
theorem intercalate_groups (sep : α) (n : Nat) (l : List α) :
    [sep].intercalate (groups n l) = separate sep n l := by
  induction l with
  | nil => rfl
  | cons c rest ih =>
      rw [groups, separate]
      by_cases hdvd : n ∣ rest.length
      · rw [if_pos hdvd]
        cases hgs : groups n rest with
        | nil =>
            obtain rfl := groups_eq_nil_iff.mp hgs
            simp [separate]
        | cons g gs =>
            have hne : rest ≠ [] := fun hnil => absurd (groups_eq_nil_iff.mpr hnil) (hgs ▸ List.cons_ne_nil _ _)
            rw [if_pos ⟨hne, hdvd⟩, ← ih, hgs, List.intercalate_cons_cons]
            rfl
      · rw [if_neg hdvd, if_neg fun h => hdvd h.2, ← ih]
        cases groups n rest with
        | nil => rfl
        | cons g gs => cases gs <;> simp [consFirst, List.intercalate]

theorem filter_separate {sep : α} [DecidableEq α] {l : List α} (h : sep ∉ l) (n : Nat) :
    (separate sep n l).filter (· != sep) = l := by
  induction l with
  | nil => rfl
  | cons c rest ih =>
      have hc : (c != sep) = true := bne_iff_ne.mpr fun heq => h (heq ▸ List.mem_cons_self)
      have hsep : (sep != sep) ≠ true := fun hne => bne_iff_ne.mp hne rfl
      have hrest := ih fun hmem => h (List.mem_cons_of_mem c hmem)
      rw [separate]
      split_ifs
      · rw [List.filter_cons, if_pos hc, List.filter_cons, if_neg hsep, hrest]
      · rw [List.filter_cons, if_pos hc, hrest]

theorem separate_eq_nil_iff {sep : α} {l : List α} : separate sep n l = [] ↔ l = [] := by
  cases l with
  | nil => exact iff_of_true rfl rfl
  | cons c rest =>
      refine iff_of_false ?_ (List.cons_ne_nil c rest)
      rw [separate]
      by_cases h : rest ≠ [] ∧ n ∣ rest.length
      · rw [if_pos h]
        exact List.cons_ne_nil _ _
      · rw [if_neg h]
        exact List.cons_ne_nil _ _

/-- There is no `sep` in front. -/
theorem head?_separate (sep : α) (n : Nat) (l : List α) : (separate sep n l).head? = l.head? := by
  cases l with
  | nil => rfl
  | cons c rest =>
      rw [separate]
      split_ifs <;> rfl

/-- There is no `sep` at the end. -/
theorem getLast?_separate (sep : α) (n : Nat) (l : List α) : (separate sep n l).getLast? = l.getLast? := by
  induction l with
  | nil => rfl
  | cons c rest ih =>
      rw [separate]
      split_ifs with h
      · have hne : separate sep n rest ≠ [] := fun hnil => h.1 (separate_eq_nil_iff.mp hnil)
        rw [List.getLast?_cons_cons, List.getLast?_cons_of_ne_nil hne, ih, List.getLast?_cons_of_ne_nil h.1]
      · rw [List.getLast?_cons, List.getLast?_cons, ih]

theorem length_separate (sep : α) (n : Nat) (l : List α) :
    (separate sep n l).length = l.length + (l.length - 1) / n := by
  induction l with
  | nil => simp [separate]
  | cons c rest ih =>
      rw [separate, List.length_cons, Nat.add_sub_cancel]
      rcases Nat.eq_zero_or_pos rest.length with hzero | hpos
      · obtain rfl := List.eq_nil_of_length_eq_zero hzero
        simp [separate]
      · have hne := List.length_pos_iff.mp hpos
        obtain ⟨m, hm⟩ : ∃ m, rest.length = m + 1 := ⟨rest.length - 1, by omega⟩
        rw [hm, Nat.add_sub_cancel] at ih
        rw [hm, Nat.succ_div]
        split_ifs with h hdvd hdvd
        · rw [List.length_cons, List.length_cons, ih]
          omega
        · exact absurd h.2 hdvd
        · exact absurd ⟨hne, hdvd⟩ h
        · rw [List.length_cons, ih]
          omega

end Grouping
