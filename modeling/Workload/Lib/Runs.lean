import Mathlib.Data.List.TakeWhile
import Mathlib.Tactic.NthRewrite

/-!
# `Lib.Runs` — the runs between separators

A sequence is cut at its separators into maximal non-empty runs, in order; how many separators stand between
two runs, and whether any stand in front or behind, makes no difference. `skip` is the array loop
`for(; i < n && p(a[i]); i++)`, and two of them in turn find the next run (`runs_drop`).
-/

namespace Runs

variable {α : Type*} {p : α → Bool} {a b : List α} {x : α}

/-- The maximal non-empty runs of elements that are no separators. -/
def runs (p : α → Bool) (l : List α) : List (List α) := (l.splitOnP p).filter fun r => !r.isEmpty

/-- A separator anywhere cuts the runs. -/
theorem runs_append_cons (hx : p x = true) : runs p (a ++ x :: b) = runs p a ++ runs p b := by
  unfold runs
  rw [List.splitOnP_append_cons a b hx, List.filter_append]

@[simp] theorem runs_nil : runs p ([] : List α) = [] := by
  unfold runs
  rw [List.splitOnP_nil]
  rfl

theorem runs_cons (hx : p x = true) : runs p (x :: b) = runs p b := by
  have h := runs_append_cons (a := []) (b := b) hx
  rwa [runs_nil, List.nil_append, List.nil_append] at h

/-- Without separators there is one run, or none. -/
theorem runs_of_free (h : ∀ y ∈ a, p y = false) : runs p a = if a = [] then [] else [a] := by
  unfold runs
  rw [List.splitOnP_eq_singleton h]
  cases a with
  | nil => rfl
  | cons y a => rfl

/-- Separators behind the last run do not matter. -/
theorem runs_append_seps (h : ∀ y ∈ b, p y = true) : runs p (a ++ b) = runs p a := by
  cases b with
  | nil => rw [List.append_nil]
  | cons y b =>
      obtain ⟨hy, hb⟩ := List.forall_mem_cons.mp h
      have hnone : runs p b = [] := by
        clear h
        induction b with
        | nil => exact runs_nil
        | cons z b ih =>
            obtain ⟨hz, hb⟩ := List.forall_mem_cons.mp hb
            rw [runs_cons hz]
            exact ih hb
      rw [runs_append_cons hy, hnone, List.append_nil]

/-- A run is not empty and has no separator in it. -/
theorem mem_runs {l r : List α} (hr : r ∈ runs p l) : r ≠ [] ∧ ∀ y ∈ r, p y = false := by
  obtain ⟨hsplit, hne⟩ := List.mem_filter.mp hr
  refine ⟨?_, ?_⟩
  · rintro rfl
    exact absurd hne Bool.false_ne_true
  · clear hr hne
    induction l generalizing r with
    | nil =>
        rw [List.splitOnP_nil, List.mem_singleton] at hsplit
        rw [hsplit]
        exact nofun
    | cons z l ih =>
        rw [List.splitOnP_cons_eq_if_modifyHead] at hsplit
        by_cases hz : p z = true
        · rw [if_pos hz] at hsplit
          rcases List.mem_cons.mp hsplit with rfl | hr
          · exact nofun
          · exact ih hr
        · rw [if_neg hz] at hsplit
          cases hl : l.splitOnP p with
          | nil => exact absurd hl (List.splitOnP_ne_nil p l)
          | cons s rest =>
              rw [hl, List.modifyHead_cons] at hsplit
              rw [hl] at ih
              rcases List.mem_cons.mp hsplit with rfl | hr
              · exact List.forall_mem_cons.mpr ⟨by simpa using hz, ih List.mem_cons_self⟩
              · exact ih (List.mem_cons_of_mem s hr)

/-- Nothing but separators is lost. -/
theorem flatten_runs (l : List α) : (runs p l).flatten = l.filter fun y => !p y := by
  induction hn : l.length using Nat.strongRecOn generalizing l with
  | ind n ih =>
      by_cases hfree : ∀ y ∈ l, p y = false
      · rw [runs_of_free hfree, List.filter_eq_self.mpr fun y hy => by rw [hfree y hy]; rfl]
        split_ifs with hl
        · rw [hl]
          rfl
        · exact List.append_nil l
      · obtain ⟨y, hy, hsep⟩ : ∃ y ∈ l, ¬ p y = false := by
          by_contra hnone
          exact hfree fun y hy => by_contra fun hy' => hnone ⟨y, hy, hy'⟩
        have hsep : p y = true := by simpa using hsep
        obtain ⟨a, b, rfl⟩ := List.append_of_mem hy
        simp only [List.length_append, List.length_cons] at hn
        rw [runs_append_cons hsep, List.flatten_append, ih a.length (by omega) a rfl,
          ih b.length (by omega) b rfl, List.filter_append, List.filter_cons_of_neg (by simp [hsep])]

/-- Lines ended by a separator each are read back. -/
theorem runs_lines {lines : List (List α)} (hx : p x = true)
    (hfree : ∀ l ∈ lines, ∀ y ∈ l, p y = false) :
    runs p (lines.flatMap fun l => l ++ [x]) = lines.filter fun l => !l.isEmpty := by
  induction lines with
  | nil => exact runs_nil
  | cons l lines ih =>
      obtain ⟨hl, hlines⟩ := List.forall_mem_cons.mp hfree
      rw [List.flatMap_cons, List.append_assoc, List.singleton_append, runs_append_cons hx, ih hlines,
        runs_of_free hl, List.filter_cons]
      cases l with
      | nil => rfl
      | cons y l => rfl

/-- Whatever separators stand in front, between and behind, the runs are read back. -/
theorem runs_pieces {front back first : List α} {pieces : List (List α × List α)}
    (hfront : ∀ y ∈ front, p y = true) (hback : ∀ y ∈ back, p y = true)
    (hfirst : first ≠ [] ∧ ∀ y ∈ first, p y = false)
    (hpieces : ∀ x ∈ pieces, (x.1 ≠ [] ∧ ∀ y ∈ x.1, p y = true) ∧ x.2 ≠ [] ∧ ∀ y ∈ x.2, p y = false) :
    runs p (front ++ first ++ pieces.flatMap (fun x => x.1 ++ x.2) ++ back) = first :: pieces.map Prod.snd := by
  rw [runs_append_seps hback]
  have hskip : ∀ {seps l : List α}, (∀ y ∈ seps, p y = true) → runs p (seps ++ l) = runs p l := by
    intro seps l hseps
    induction seps with
    | nil => rfl
    | cons y seps ih =>
        obtain ⟨hy, hseps⟩ := List.forall_mem_cons.mp hseps
        rw [List.cons_append, runs_cons hy, ih hseps]
  rw [List.append_assoc, hskip hfront]
  induction pieces generalizing first with
  | nil =>
      rw [List.flatMap_nil, List.append_nil, runs_of_free hfirst.2, if_neg hfirst.1]
      rfl
  | cons x pieces ih =>
      obtain ⟨⟨⟨hne, hseps⟩, hrun⟩, hpieces⟩ := List.forall_mem_cons.mp hpieces
      cases hsep : x.1 with
      | nil => exact absurd hsep hne
      | cons y seps =>
          rw [hsep] at hseps
          obtain ⟨hy, hseps⟩ := List.forall_mem_cons.mp hseps
          rw [List.flatMap_cons, hsep, List.cons_append, List.cons_append, runs_append_cons hy,
            List.append_assoc, hskip hseps, ih hrun hpieces, runs_of_free hfirst.2, if_neg hfirst.1]
          rfl

/-! ## Loops over an array -/

/-- `for(; i < n && p(a[i]); i++)`, for at most `fuel` rounds. -/
def skip (p : α → Bool) (a : List α) : Nat → Nat → Nat
  | 0, i => i
  | fuel + 1, i =>
      match a[i]? with
      | some x => if p x then skip p a fuel (i + 1) else i
      | none => i

/-- The loop stops in front of the first element that is not `p`. -/
theorem skip_eq {fuel i : Nat} (hfuel : a.length ≤ i + fuel) :
    skip p a fuel i = i + ((a.drop i).takeWhile p).length := by
  induction fuel generalizing i with
  | zero =>
      rw [List.drop_eq_nil_of_le (show a.length ≤ i from hfuel)]
      rfl
  | succ fuel ih =>
      unfold skip
      by_cases hi : i < a.length
      · rw [List.getElem?_eq_getElem hi, List.drop_eq_getElem_cons hi]
        dsimp only
        cases hp : p a[i] with
        | false =>
            rw [List.takeWhile_cons_of_neg (by rw [hp]; decide)]
            rfl
        | true =>
            rw [if_pos rfl, List.takeWhile_cons_of_pos hp, ih (by omega), List.length_cons]
            omega
      · rw [List.getElem?_eq_none (by omega), List.drop_eq_nil_of_le (by omega)]
        rfl

/-- What the loop leaves behind it, and what it passed. -/
theorem drop_skip {fuel i : Nat} (hfuel : a.length ≤ i + fuel) :
    a.drop (skip p a fuel i) = (a.drop i).dropWhile p := by
  rw [skip_eq hfuel, ← List.drop_drop]
  nth_rewrite 2 [← List.takeWhile_append_dropWhile (p := p) (l := a.drop i)]
  rw [List.drop_left]

theorem take_skip {fuel i : Nat} (hfuel : a.length ≤ i + fuel) :
    (a.drop i).take (skip p a fuel i - i) = (a.drop i).takeWhile p := by
  rw [skip_eq hfuel, Nat.add_sub_cancel_left]
  nth_rewrite 2 [← List.takeWhile_append_dropWhile (p := p) (l := a.drop i)]
  rw [List.take_left]

/-- **The next run**: past the separators, then up to the next one. -/
theorem runs_drop (l : List α) :
    runs p l =
      match (l.dropWhile p).takeWhile fun y => !p y with
      | [] => []
      | r => r :: runs p ((l.dropWhile p).dropWhile fun y => !p y) := by
  induction l with
  | nil => exact runs_nil
  | cons x l ih =>
      cases hx : p x with
      | true =>
          rw [runs_cons hx, List.dropWhile_cons_of_pos hx]
          exact ih
      | false =>
          rw [List.dropWhile_cons_of_neg (by rw [hx]; decide)]
          have hhead : ((x :: l).takeWhile fun y => !p y) = x :: l.takeWhile fun y => !p y :=
            List.takeWhile_cons_of_pos (by rw [hx]; rfl)
          have hfree : ∀ y ∈ (x :: l).takeWhile fun y => !p y, p y = false := fun y hy => by
            simpa using List.mem_takeWhile_imp hy
          rw [hhead]
          dsimp only
          rw [← hhead]
          have hsplit := List.takeWhile_append_dropWhile (p := fun y => !p y) (l := x :: l)
          cases hrest : (x :: l).dropWhile fun y => !p y with
          | nil =>
              rw [hrest, List.append_nil] at hsplit
              rw [runs_nil, hsplit]
              rw [hsplit] at hfree
              rw [runs_of_free hfree, if_neg (List.cons_ne_nil x l)]
          | cons z rest =>
              have hz : p z = true := by
                have hstop := List.head_dropWhile_not (fun y => !p y) (l := x :: l)
                  (by rw [hrest]; exact List.cons_ne_nil z rest)
                simpa [hrest] using hstop
              rw [hrest] at hsplit
              nth_rewrite 1 [← hsplit]
              rw [runs_append_cons hz, runs_of_free hfree, runs_cons hz, if_neg, List.singleton_append]
              rw [hhead]
              exact List.cons_ne_nil x _

/-- **Two loops find the next run**, or there is none and they stop at the end of the array. -/
theorem skip_cases (p : α → Bool) (a : List α) (i : Nat) :
    let start := skip p a a.length i
    let stop := skip (fun y => !p y) a a.length start
    (stop - start = 0 ∧ runs p (a.drop i) = [] ∧ a.length ≤ stop) ∨
      (stop - start ≠ 0 ∧ i < stop ∧
        runs p (a.drop i) = (a.drop start).take (stop - start) :: runs p (a.drop stop)) := by
  intro start stop
  have hstart : a.drop start = (a.drop i).dropWhile p := drop_skip (by omega)
  have hstop : a.drop stop = (a.drop start).dropWhile fun y => !p y := drop_skip (by omega)
  have hrun : (a.drop start).take (stop - start) = (a.drop start).takeWhile fun y => !p y :=
    take_skip (by omega)
  have hsize : stop - start = ((a.drop start).takeWhile fun y => !p y).length := by
    show skip _ a a.length start - start = _
    rw [skip_eq (by omega), Nat.add_sub_cancel_left]
  have hle : i ≤ start := by
    show i ≤ skip p a a.length i
    rw [skip_eq (by omega)]
    exact Nat.le_add_right i _
  rw [runs_drop, ← hstart, hrun, hsize, ← hstop]
  cases hnext : (a.drop start).takeWhile fun y => !p y with
  | nil =>
      refine Or.inl ⟨rfl, rfl, ?_⟩
      -- what is left after the separators starts with a character of the run
      have hnil : a.drop start = [] := by
        by_contra hne
        have hhead := List.head_dropWhile_not p (l := a.drop i) (hstart ▸ hne)
        cases hrest : a.drop start with
        | nil => exact hne hrest
        | cons x rest =>
            simp only [← hstart, hrest, List.head_cons] at hhead
            rw [hrest, List.takeWhile_cons_of_pos (by rw [hhead]; rfl)] at hnext
            exact nomatch hnext
      have hend : a.length ≤ start := List.drop_eq_nil_iff.mp hnil
      have hge : start ≤ stop := by
        show start ≤ skip _ a a.length start
        rw [skip_eq (by omega)]
        exact Nat.le_add_right start _
      omega
  | cons x r =>
      refine Or.inr ⟨Nat.succ_ne_zero _, ?_, rfl⟩
      rw [hnext, List.length_cons] at hsize
      omega

end Runs
