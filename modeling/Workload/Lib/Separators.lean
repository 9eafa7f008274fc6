import Mathlib.Data.List.DropRight
import Mathlib.Data.List.Induction
import Mathlib.Tactic.SplitIfs

/-!
# `Lib.Separators` — words between separators

A list is cut at the elements that are separators (`List.splitOnP`). Its `words` are the parts that are not empty,
its `lastWord` is the one in front of the separators it ends with.

* `splitOnP_intercalate` — parts that are joined with a separator and cut again.
* **`words_append_cons`** — a word ends at a separator, so a second one next to it does not matter.
* **`lastWord_spec`** — the last word stands between a separator, or the start, and the separators at the end.
-/

namespace Separators

variable {α : Type*} {isSep : α → Bool} {a sep : α} {l l' : List α} {ls : List (List α)}

/-! ## Cutting and joining -/

/-- The parts have no separators in them. -/
theorem splitOnP_free (l : List α) : ∀ part ∈ l.splitOnP isSep, ∀ a ∈ part, isSep a = false := by
  induction l with
  | nil => exact List.forall_mem_singleton.mpr nofun
  | cons a l ih =>
      rw [List.splitOnP_cons_eq_if_modifyHead]
      split_ifs with ha
      · exact List.forall_mem_cons.mpr ⟨nofun, ih⟩
      · obtain ⟨part, parts, hparts⟩ := List.exists_cons_of_ne_nil (List.splitOnP_ne_nil isSep l)
        rw [hparts] at ih ⊢
        obtain ⟨hpart, hrest⟩ := List.forall_mem_cons.mp ih
        exact List.forall_mem_cons.mpr ⟨List.forall_mem_cons.mpr ⟨Bool.eq_false_iff.mpr ha, hpart⟩, hrest⟩

theorem splitOnP_intercalate (hsep : isSep sep = true) (hne : ls ≠ [])
    (hfree : ∀ l ∈ ls, ∀ a ∈ l, isSep a = false) : ([sep].intercalate ls).splitOnP isSep = ls := by
  induction ls with
  | nil => exact absurd rfl hne
  | cons l ls ih =>
      obtain ⟨hl, hls⟩ := List.forall_mem_cons.mp hfree
      by_cases hlast : ls = []
      · rw [hlast, List.intercalate_singleton, List.splitOnP_eq_singleton hl]
      · rw [List.intercalate_cons_of_ne_nil hlast, List.append_assoc, List.singleton_append,
          List.splitOnP_append_cons_of_forall_mem hl sep hsep, ih hlast hls]

/-- The last part stands behind the last separator. -/
theorem getLast?_splitOnP (l : List α) : (l.splitOnP isSep).getLast? = some (l.rtakeWhile (!isSep ·)) := by
  have hcut := List.rdropWhile_append_rtakeWhile (p := (!isSep ·)) (l := l)
  have hfree : ∀ a ∈ l.rtakeWhile (!isSep ·), isSep a = false := by
    intro a ha
    simpa using List.mem_rtakeWhile_imp ha
  generalize l.rtakeWhile (!isSep ·) = part at hcut hfree ⊢
  rcases List.eq_nil_or_concat' (l.rdropWhile (!isSep ·)) with hfront | ⟨front, s, hfront⟩
  · rw [hfront, List.nil_append] at hcut
    rw [← hcut, List.splitOnP_eq_singleton hfree, List.getLast?_singleton]
  · have hs : isSep s = true := by
      have hlast := List.rdropWhile_last_not (!isSep ·) l (by rw [hfront]; exact List.concat_ne_nil _ _)
      simpa [hfront] using hlast
    rw [hfront, List.append_assoc, List.singleton_append] at hcut
    rw [← hcut, List.splitOnP_append_cons _ _ hs, List.splitOnP_eq_singleton hfree, List.getLast?_concat]

/-- The last part is empty where the list ends in a separator, or is empty. -/
theorem getLast?_splitOnP_eq_nil (l : List α) :
    (l.splitOnP isSep).getLast? = some [] ↔ ∀ a ∈ l.getLast?, isSep a = true := by
  rw [getLast?_splitOnP, Option.some_inj]
  rcases List.eq_nil_or_concat' l with rfl | ⟨front, b, rfl⟩
  · exact iff_of_true rfl nofun
  · rw [List.getLast?_concat, List.rtakeWhile_concat]
    cases hb : isSep b <;> simp [hb]

/-! ## Words -/

/-- The parts between separators that are not empty. -/
def words (isSep : α → Bool) (l : List α) : List (List α) := (l.splitOnP isSep).filter (!·.isEmpty)

@[simp] theorem words_nil : words isSep [] = [] := rfl

theorem words_append_cons (hsep : isSep sep = true) :
    words isSep (l ++ sep :: l') = words isSep l ++ words isSep l' := by
  unfold words
  rw [List.splitOnP_append_cons _ _ hsep, List.filter_append]

/-- A separator at the start does not matter. -/
theorem words_cons (hsep : isSep sep = true) : words isSep (sep :: l) = words isSep l :=
  words_append_cons (l := []) hsep

/-- A separator at the end does not matter. -/
theorem words_concat (hsep : isSep sep = true) : words isSep (l ++ [sep]) = words isSep l :=
  (words_append_cons hsep).trans (List.append_nil _)

/-! ## The last word -/

/-- A list loses the separators at its end, or all of its elements are separators. -/
theorem rdropWhile_cons : (a :: l).rdropWhile isSep =
    if ∀ b ∈ a :: l, isSep b = true then [] else a :: l.rdropWhile isSep := by
  induction l using List.reverseRecOn with
  | nil => simp [List.rdropWhile_singleton]
  | append_singleton l b ih =>
      rw [← List.cons_append, List.rdropWhile_concat, List.rdropWhile_concat]
      by_cases hb : isSep b = true
      · simp only [hb, if_true, ih, List.forall_mem_append, List.forall_mem_singleton, and_true]
      · have hsome : ¬∀ c ∈ a :: l ++ [b], isSep c = true := fun h => hb (h b List.mem_concat_self)
        rw [if_neg hb, if_neg hb, if_neg hsome]
        rfl

/-- The part in front of the separators at the end, back to the separator before it. -/
def lastWord (isSep : α → Bool) (l : List α) : List α := (l.rdropWhile isSep).rtakeWhile (!isSep ·)

theorem lastWord_rdropWhile : lastWord isSep (l.rdropWhile isSep) = lastWord isSep l := by
  unfold lastWord
  rw [List.rdropWhile_idempotent]

/-- A list without separators is its last word. -/
theorem lastWord_of_free (hfree : ∀ a ∈ l, isSep a = false) : lastWord isSep l = l := by
  have hdrop : l.rdropWhile isSep = l := by
    rw [List.rdropWhile_eq_self_iff]
    intro hl h
    exact Bool.false_ne_true ((hfree _ (List.getLast_mem hl)).symm.trans h)
  unfold lastWord
  rw [hdrop, List.rtakeWhile_eq_self_iff]
  intro a ha
  rw [hfree a ha]
  rfl

theorem lastWord_free : ∀ a ∈ lastWord isSep l, isSep a = false := by
  intro a ha
  simpa using List.mem_rtakeWhile_imp ha

theorem lastWord_ne_nil (h : ∃ a ∈ l, isSep a = false) : lastWord isSep l ≠ [] := by
  obtain ⟨a, ha, hfree⟩ := h
  have hdrop : l.rdropWhile isSep ≠ [] := by
    intro hnil
    rw [List.rdropWhile_eq_nil_iff.mp hnil a ha] at hfree
    exact nomatch hfree
  unfold lastWord
  rw [ne_eq, List.rtakeWhile_eq_nil_iff, not_forall]
  refine ⟨hdrop, ?_⟩
  have hlast := List.rdropWhile_last_not isSep l hdrop
  simpa using hlast

/-- **The place of the last word.** -/
theorem lastWord_spec : ∃ front trail, l = front ++ lastWord isSep l ++ trail ∧
    (∀ a ∈ trail, isSep a = true) ∧ ∀ a ∈ front.getLast?, isSep a = true := by
  refine ⟨(l.rdropWhile isSep).rdropWhile (!isSep ·), l.rtakeWhile isSep, ?_,
    fun a ha => List.mem_rtakeWhile_imp ha, fun a ha => ?_⟩
  · unfold lastWord
    rw [List.rdropWhile_append_rtakeWhile, List.rdropWhile_append_rtakeWhile]
  · obtain ⟨hne, rfl⟩ := List.mem_getLast?_eq_getLast ha
    simpa using List.rdropWhile_last_not (!isSep ·) (l.rdropWhile isSep) hne

end Separators
