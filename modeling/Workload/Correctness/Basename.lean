import Workload.Lib.Separators
import Workload.Model.Text
import Mathlib.Data.List.GetD

/-!
# `Correctness.Basename` — the last component of a path

`workload_basename` goes through a path from its end. As long as it has passed no character of the component it
cuts off separators; from the first such character on it only counts, up to the separator in front.

* `basenameLoop_counting`, `basenameLoop_cutting` — the two phases of the loop.
* **`basename_exact`** — the component returned, the caller's string behind the call, and a second call on either.
-/

namespace Workload

open Separators

variable {path : Text}

/-- The path without the separators at its end; the first character stays. -/
def trimmedPath : Text → Text
  | [] => []
  | c :: rest => c :: rest.rdropWhile isPathSep

/-- The last component; of separators alone it is the first. -/
def lastComponent (path : Text) : Text :=
  if path.all isPathSep = true then path.take 1 else lastWord isPathSep path

/-! ## The loop -/

/-- **Counting.** Behind a character of the component, the separator before it ends the loop. -/
theorem basenameLoop_counting (front rest : Text) {count : Nat} (hcount : 0 < count) :
    basenameLoop front.length count (front ++ rest) =
      (front ++ rest, (front.rdropWhile (!isPathSep ·)).length) := by
  induction front using List.reverseRecOn generalizing rest count with
  | nil => rfl
  | append_singleton front c ih =>
      have hget : (front ++ [c] ++ rest).getD front.length '\x00' = c := by
        rw [List.append_assoc, List.getD_append_right _ _ _ _ (Nat.le_refl _), Nat.sub_self]
        rfl
      rw [List.length_append, List.length_singleton, basenameLoop, hget, List.rdropWhile_concat]
      cases hc : isPathSep c with
      | true => simp [hcount]
      | false => simpa using ih (c :: rest) (Nat.succ_pos count)

/-- **Cutting.** The separators at the end of the path are cut off before the component is searched. -/
theorem basenameLoop_cutting (path : Text) :
    basenameLoop path.length 0 path =
      (trimmedPath path, ((path.rdropWhile isPathSep).rdropWhile (!isPathSep ·)).length) := by
  induction path using List.reverseRecOn with
  | nil => rfl
  | append_singleton front c ih =>
      have hget : (front ++ [c]).getD front.length '\x00' = c := by
        rw [List.getD_append_right _ _ _ _ (Nat.le_refl _), Nat.sub_self]
        rfl
      rw [List.length_append, List.length_singleton, basenameLoop, hget]
      cases hc : isPathSep c with
      | false =>
          -- the component starts here
          have htrim : trimmedPath (front ++ [c]) = front ++ [c] := by
            cases front with
            | nil => rfl
            | cons d front => rw [List.cons_append, trimmedPath, List.rdropWhile_concat, hc]; rfl
          have hloop := basenameLoop_counting front [c] (Nat.succ_pos 0)
          rw [htrim, List.rdropWhile_concat_neg _ _ _ (by rw [hc]; exact Bool.false_ne_true),
            List.rdropWhile_concat, hc]
          simpa using hloop
      | true =>
          rw [List.rdropWhile_concat_pos _ _ _ hc]
          cases front with
          | nil => rfl
          | cons d front =>
              have htrim : trimmedPath (d :: front ++ [c]) = trimmedPath (d :: front) := by
                rw [List.cons_append, trimmedPath, trimmedPath, List.rdropWhile_concat_pos _ _ _ hc]
              rw [htrim, ← ih]
              simp

/-! ## The call -/

theorem trimmedPath_of_separators (h : ∀ c ∈ path, isPathSep c = true) : trimmedPath path = path.take 1 := by
  cases path with
  | nil => rfl
  | cons c rest =>
      have hrest : rest.rdropWhile isPathSep = [] :=
        List.rdropWhile_eq_nil_iff.mpr (List.forall_mem_cons.mp h).2
      rw [trimmedPath, hrest]
      rfl

theorem trimmedPath_of_component (h : ¬∀ c ∈ path, isPathSep c = true) :
    trimmedPath path = path.rdropWhile isPathSep := by
  cases path with
  | nil => rfl
  | cons c rest => rw [trimmedPath, rdropWhile_cons, if_neg h]

theorem lastComponent_of_separators (h : ∀ c ∈ path, isPathSep c = true) : lastComponent path = path.take 1 :=
  if_pos (List.all_eq_true.mpr h)

theorem lastComponent_of_component (h : ¬∀ c ∈ path, isPathSep c = true) :
    lastComponent path = lastWord isPathSep path :=
  if_neg fun hall => h (List.all_eq_true.mp hall)

/-- What `workload_basename` leaves and returns. -/
theorem workloadBasename_eq (hne : path ≠ []) :
    workloadBasename path = (trimmedPath path, lastComponent path) := by
  unfold workloadBasename
  rw [if_neg hne, basenameLoop_cutting]
  dsimp only
  by_cases hsep : ∀ c ∈ path, isPathSep c = true
  · obtain ⟨c, rest, rfl⟩ := List.exists_cons_of_ne_nil hne
    have hdrop : (c :: rest).rdropWhile isPathSep = [] := List.rdropWhile_eq_nil_iff.mpr hsep
    rw [lastComponent_of_separators hsep, trimmedPath_of_separators hsep, hdrop]
    rfl
  · have hword : (path.rdropWhile isPathSep).drop ((path.rdropWhile isPathSep).rdropWhile (!isPathSep ·)).length =
        lastWord isPathSep path := by
      have hcut := List.rdropWhile_append_rtakeWhile (p := (!isPathSep ·)) (l := path.rdropWhile isPathSep)
      calc _ = (_ ++ lastWord isPathSep path).drop _ := by rw [lastWord, hcut]
        _ = _ := List.drop_left' rfl
    have hsome : ∃ c ∈ path, isPathSep c = false := by simpa using hsep
    rw [lastComponent_of_component hsep, trimmedPath_of_component hsep, hword, if_neg (lastWord_ne_nil hsome)]

theorem lastComponent_trimmedPath : lastComponent (trimmedPath path) = lastComponent path := by
  by_cases hsep : ∀ c ∈ path, isPathSep c = true
  · have htake : ∀ c ∈ path.take 1, isPathSep c = true := fun c hc => hsep c (List.mem_of_mem_take hc)
    rw [trimmedPath_of_separators hsep, lastComponent_of_separators htake, lastComponent_of_separators hsep,
      List.take_take]
    rfl
  · have hkept : ¬∀ c ∈ path.rdropWhile isPathSep, isPathSep c = true := by
      rw [← List.rdropWhile_eq_nil_iff, List.rdropWhile_idempotent, List.rdropWhile_eq_nil_iff]
      exact hsep
    rw [trimmedPath_of_component hsep, lastComponent_of_component hkept, lastComponent_of_component hsep,
      lastWord_rdropWhile]

theorem trimmedPath_idempotent : trimmedPath (trimmedPath path) = trimmedPath path := by
  cases path with
  | nil => rfl
  | cons c rest => rw [trimmedPath, trimmedPath, List.rdropWhile_idempotent]

/-- A component is left as it is. -/
theorem lastComponent_fixed (path : Text) : trimmedPath (lastComponent path) = lastComponent path ∧
    lastComponent (lastComponent path) = lastComponent path := by
  by_cases hsep : ∀ c ∈ path, isPathSep c = true
  · have hcomponent : lastComponent path = trimmedPath path := by
      rw [lastComponent_of_separators hsep, trimmedPath_of_separators hsep]
    rw [hcomponent, trimmedPath_idempotent, lastComponent_trimmedPath]
    exact ⟨rfl, hcomponent⟩
  · have hcomponent : lastComponent path = lastWord isPathSep path := lastComponent_of_component hsep
    have hfree : ∀ c ∈ lastWord isPathSep path, isPathSep c = false := lastWord_free
    have hne : lastWord isPathSep path ≠ [] := lastWord_ne_nil (by simpa using hsep)
    have hsome : ¬∀ c ∈ lastWord isPathSep path, isPathSep c = true := by
      obtain ⟨c, hc⟩ := List.exists_mem_of_ne_nil _ hne
      exact fun h => Bool.false_ne_true ((hfree c hc).symm.trans (h c hc))
    rw [hcomponent]
    constructor
    · rw [trimmedPath_of_component hsome, List.rdropWhile_eq_self_iff]
      intro hl h
      exact Bool.false_ne_true ((hfree _ (List.getLast_mem hl)).symm.trans h)
    · rw [lastComponent_of_component hsome, lastWord_of_free hfree]

theorem lastComponent_ne_nil (hne : path ≠ []) : lastComponent path ≠ [] := by
  by_cases hsep : ∀ c ∈ path, isPathSep c = true
  · rw [lastComponent_of_separators hsep]
    obtain ⟨c, rest, rfl⟩ := List.exists_cons_of_ne_nil hne
    exact List.cons_ne_nil _ _
  · rw [lastComponent_of_component hsep]
    exact lastWord_ne_nil (by simpa using hsep)

/-- **The base name of a path.** The call returns the last run of characters that are no separators, of separators
    alone the first one; it leaves the path without the separators at its end, the first character kept. A second
    call, on the component or on the path that is left, returns the same. -/
theorem basename_exact (path : Text) (hne : path ≠ []) :
    ∃ left component, workloadBasename path = (left, component) ∧
      left = path.head hne :: path.tail.rdropWhile isPathSep ∧
      ((∃ c ∈ path, isPathSep c = false) → component ≠ [] ∧ (∀ c ∈ component, isPathSep c = false) ∧
        ∃ front trail, path = front ++ component ++ trail ∧ (∀ c ∈ trail, isPathSep c = true) ∧
          ∀ c ∈ front.getLast?, isPathSep c = true) ∧
      ((∀ c ∈ path, isPathSep c = true) → component = [path.head hne]) ∧
      workloadBasename component = (component, component) ∧ workloadBasename left = (left, component) := by
  refine ⟨trimmedPath path, lastComponent path, workloadBasename_eq hne, ?_, fun hsome => ?_, fun hsep => ?_,
    ?_, ?_⟩
  · obtain ⟨c, rest, rfl⟩ := List.exists_cons_of_ne_nil hne
    rfl
  · have hsep : ¬∀ c ∈ path, isPathSep c = true := by simpa using hsome
    rw [lastComponent_of_component hsep]
    exact ⟨lastWord_ne_nil hsome, lastWord_free, lastWord_spec⟩
  · obtain ⟨c, rest, rfl⟩ := List.exists_cons_of_ne_nil hne
    rw [lastComponent_of_separators hsep]
    rfl
  · obtain ⟨htrim, hlast⟩ := lastComponent_fixed path
    rw [workloadBasename_eq (lastComponent_ne_nil hne), htrim, hlast]
  · have hleft : trimmedPath path ≠ [] := by
      obtain ⟨c, rest, rfl⟩ := List.exists_cons_of_ne_nil hne
      exact List.cons_ne_nil _ _
    rw [workloadBasename_eq hleft, trimmedPath_idempotent, lastComponent_trimmedPath]

/-- Mixed and repeated separators. -/
theorem basename_mixed : ∃ left component, workloadBasename "/a\\\\b/\\".toList = (left, component) ∧
    left = "/a\\\\b".toList ∧ workloadBasename component = (component, component) := by
  obtain ⟨left, component, hcall, hleft, -, -, hagain, -⟩ := basename_exact "/a\\\\b/\\".toList (by decide)
  refine ⟨left, component, hcall, ?_, hagain⟩
  rw [hleft]
  decide

end Workload
