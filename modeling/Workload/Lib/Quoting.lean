import Mathlib.Data.List.Basic
import Mathlib.Data.Option.Basic
import Mathlib.Tactic.SplitIfs

/-!
# `Lib.Quoting` — texts with quoted literals, and how they are read

In a text a literal stands between two quotes; it ends at the first quote that is not doubled, and a doubled
quote stands for one. `scan` reads a text into its `Piece`s. `render` puts literals between quotes as they are,
without doubling anything.

* **`readsAs_render`** — what was rendered reads back, exactly when no literal contains a quote.
-/

namespace Quoting

variable {α : Type*} [DecidableEq α]

/-- A symbol outside of all literals, or a literal as it is meant. -/
inductive Piece (α : Type*) where
  | text (c : α)
  | literal (s : List α)

/-- Where the reader is: outside, in a literal, or behind a quote in a literal. -/
inductive Mode (α : Type*) where
  | outside
  | inside (acc : List α)
  | closing (acc : List α)

/-- Read a text; a literal that does not end has no reading. -/
def scan (q : α) : Mode α → List α → Option (List (Piece α))
  | .outside, [] => some []
  | .outside, c :: t =>
      if c = q then scan q (.inside []) t else (scan q .outside t).map (.text c :: ·)
  | .inside _, [] => none
  | .inside acc, c :: t =>
      if c = q then scan q (.closing acc) t else scan q (.inside (acc ++ [c])) t
  | .closing acc, [] => some [.literal acc]
  | .closing acc, c :: t =>
      if c = q then scan q (.inside (acc ++ [q])) t
      else (scan q .outside t).map (.literal acc :: .text c :: ·)

/-- The text of some pieces, with the literals between quotes as they are. -/
def render (q : α) : List (Piece α) → List α
  | [] => []
  | .text c :: ps => c :: render q ps
  | .literal s :: ps => q :: (s ++ q :: render q ps)

/-- A literal as it has to be written: quotes doubled. -/
def escape (q : α) (s : List α) : List α := s.flatMap fun c => if c = q then [q, q] else [c]

/-- What a reading has outside of its literals, and where these stand. -/
def skeleton (ps : List (Piece α)) : List (Option α) :=
  ps.map fun
    | .text c => some c
    | .literal _ => none

/-- The literals of a reading. -/
def literals (ps : List (Piece α)) : List (List α) :=
  ps.filterMap fun
    | .text _ => none
    | .literal s => some s

/-- No quote outside of the literals, and no literal right behind another. -/
def spaced (q : α) : List (Option α) → Bool
  | [] => true
  | some c :: sk => c != q && spaced q sk
  | none :: none :: _ => false
  | none :: sk => spaced q sk

/-- The text reads as the literals `ls` in the places of `sk`. -/
def ReadsAs (q : α) (t : List α) (sk : List (Option α)) (ls : List (List α)) : Prop :=
  ∃ ps, scan q .outside t = some ps ∧ skeleton ps = sk ∧ literals ps = ls

omit [DecidableEq α] in
@[simp] theorem skeleton_literal (s : List α) (ps : List (Piece α)) :
    skeleton (.literal s :: ps) = none :: skeleton ps := rfl

omit [DecidableEq α] in
@[simp] theorem literals_literal (s : List α) (ps : List (Piece α)) :
    literals (.literal s :: ps) = s :: literals ps := rfl

omit [DecidableEq α] in
/-- Skeleton and literals are all there is. -/
theorem pieces_ext {ps qs : List (Piece α)} (hsk : skeleton ps = skeleton qs)
    (hls : literals ps = literals qs) : ps = qs := by
  induction ps generalizing qs with
  | nil =>
      cases qs with
      | nil => rfl
      | cons y qs => exact absurd hsk (by simp [skeleton])
  | cons x ps ih =>
      cases qs with
      | nil => exact absurd hsk (by simp [skeleton])
      | cons y qs =>
          obtain ⟨hhead, htail⟩ := List.cons.inj hsk
          cases x with
          | text c =>
              cases y with
              | literal s => exact absurd hhead (by simp)
              | text d =>
                  obtain rfl : c = d := Option.some.inj hhead
                  rw [ih htail hls]
          | literal s =>
              cases y with
              | text d => exact absurd hhead (by simp)
              | literal s' =>
                  obtain ⟨rfl, hrest⟩ := List.cons.inj hls
                  rw [ih htail hrest]

/-! ## Literals without quotes -/

theorem scan_inside {q : α} {w : List α} (hw : q ∉ w) (acc t : List α) :
    scan q (.inside acc) (w ++ t) = scan q (.inside (acc ++ w)) t := by
  induction w generalizing acc with
  | nil => rw [List.nil_append, List.append_nil]
  | cons c w ih =>
      obtain ⟨hc, hw⟩ := not_or.mp (mt List.mem_cons.mpr hw)
      rw [List.cons_append, scan, if_neg (Ne.symm hc), ih hw, List.append_assoc]
      rfl

/-- A literal without quotes ends where it was closed. -/
theorem scan_literal {q : α} {w : List α} {ps : List (Piece α)} (hw : q ∉ w)
    (hsp : spaced q (none :: skeleton ps) = true) :
    scan q .outside (render q (.literal w :: ps)) =
      (scan q .outside (render q ps)).map (.literal w :: ·) := by
  rw [render, scan, if_pos rfl, scan_inside hw, List.nil_append, scan, if_pos rfl]
  cases ps with
  | nil => rfl
  | cons x ps =>
      cases x with
      | literal s => exact absurd hsp Bool.false_ne_true
      | text c =>
          have hc : c ≠ q := by
            have hand : (c != q && spaced q (skeleton ps)) = true := hsp
            simpa using (Bool.and_eq_true_iff.mp hand).1
          rw [render, scan, scan, if_neg hc, if_neg hc, Option.map_map]
          rfl

/-! ## Literals with quotes -/

/-- What is read as a literal was there with its quotes doubled. -/
theorem scan_literal_eq {q : α} {t d : List α} {ps : List (Piece α)} :
    (∀ acc, scan q (.inside acc) t = some (.literal d :: ps) →
        ∃ e r, d = acc ++ e ∧ t = escape q e ++ q :: r) ∧
      ∀ acc, scan q (.closing acc) t = some (.literal d :: ps) →
        d = acc ∨ ∃ e r, d = acc ++ q :: e ∧ t = q :: (escape q e ++ q :: r) := by
  induction t generalizing d ps with
  | nil =>
      refine ⟨(fun acc h => nomatch h), fun acc h => ?_⟩
      obtain ⟨hd, -⟩ := List.cons.inj (Option.some.inj h)
      exact Or.inl (Piece.literal.inj hd).symm
  | cons c t ih =>
      refine ⟨fun acc h => ?_, fun acc h => ?_⟩
      · rw [scan] at h
        split_ifs at h with hc
        · rcases ih.2 acc h with rfl | ⟨e, r, rfl, rfl⟩
          · exact ⟨[], t, (List.append_nil _).symm, by rw [hc]; rfl⟩
          · exact ⟨q :: e, r, rfl, by simp [escape, hc]⟩
        · obtain ⟨e, r, rfl, rfl⟩ := ih.1 _ h
          exact ⟨c :: e, r, by simp, by simp [escape, hc]⟩
      · rw [scan] at h
        split_ifs at h with hc
        · obtain ⟨e, r, rfl, rfl⟩ := ih.1 _ h
          exact Or.inr ⟨e, r, by simp, by rw [hc]⟩
        · obtain ⟨ps', -, hps⟩ := Option.map_eq_some_iff.mp h
          obtain ⟨hd, -⟩ := List.cons.inj hps
          exact Or.inl (Piece.literal.inj hd).symm

/-- A text and its own doubled form do not line up behind quotes: the doubled form has more of them. -/
theorem append_ne_escape {q : α} {v rest : List α} (hrest : rest.head? ≠ some q) (j : Nat) (r : List α) :
    v ++ q :: rest ≠ List.replicate (j + 1) q ++ (escape q v ++ q :: r) := by
  induction v generalizing j with
  | nil =>
      intro h
      obtain ⟨-, h⟩ := List.cons.inj h
      rw [h] at hrest
      cases j with
      | zero => exact hrest rfl
      | succ j => exact hrest rfl
  | cons c v ih =>
      intro h
      obtain ⟨rfl, htail⟩ := List.cons.inj h
      have hrow : v ++ c :: rest = List.replicate j c ++ (escape c (c :: v) ++ c :: r) := htail
      -- one quote of `v` is two of its doubled form
      refine ih (j + 1) ?_
      rw [hrow]
      simp [escape, List.replicate_succ']

/-- **A literal with a quote does not read back.** -/
theorem scan_ne_of_mem {q : α} {w rest : List α} (hw : q ∈ w) (hrest : rest.head? ≠ some q)
    (ps : List (Piece α)) : scan q (.inside []) (w ++ q :: rest) ≠ some (.literal w :: ps) := by
  intro h
  obtain ⟨e, r, he, ht⟩ := scan_literal_eq.1 [] h
  obtain rfl : w = e := he
  obtain ⟨u, v, rfl, hu⟩ := List.eq_append_cons_of_mem hw
  have hescape : escape q (u ++ q :: v) = u ++ q :: q :: escape q v := by
    have hkeep : u.flatMap (fun c => if c = q then [q, q] else [c]) = u := by
      have hsame : u.flatMap (fun c => if c = q then [q, q] else [c]) = u.flatMap fun c => [c] :=
        List.flatMap_congr fun c hc => if_neg fun he : c = q => hu (he ▸ hc)
      rw [hsame, List.flatMap_singleton']
    rw [escape, List.flatMap_append, hkeep, List.flatMap_cons, if_pos rfl]
    rfl
  rw [hescape, List.append_assoc, List.append_assoc] at ht
  have hcancel := List.append_cancel_left ht
  obtain ⟨-, htail⟩ := List.cons.inj hcancel
  exact append_ne_escape hrest 0 r htail

/-! ## Rendered texts -/

theorem head_render {q : α} {ps : List (Piece α)} (hsp : spaced q (none :: skeleton ps) = true) :
    (render q ps).head? ≠ some q := by
  cases ps with
  | nil => exact nofun
  | cons x ps =>
      cases x with
      | literal s => exact absurd hsp Bool.false_ne_true
      | text c =>
          have hand : (c != q && spaced q (skeleton ps)) = true := hsp
          have hc : c ≠ q := by simpa using (Bool.and_eq_true_iff.mp hand).1
          exact fun h => hc (Option.some.inj h)

theorem spaced_tail {q : α} {sk : List (Option α)} (h : spaced q (none :: sk) = true) :
    spaced q sk = true := by
  cases sk with
  | nil => rfl
  | cons x sk =>
      cases x with
      | none => exact absurd h Bool.false_ne_true
      | some c => exact h

/-- A rendered text reads as the pieces it was made of, exactly when no literal contains a quote. -/
theorem scan_render {q : α} {ps : List (Piece α)} (hsp : spaced q (skeleton ps) = true) :
    scan q .outside (render q ps) = some ps ↔ ∀ s ∈ literals ps, q ∉ s := by
  induction ps with
  | nil => exact ⟨fun _ => nofun, fun _ => rfl⟩
  | cons x ps ih =>
      cases x with
      | text c =>
          have hand : (c != q && spaced q (skeleton ps)) = true := hsp
          obtain ⟨hc, htail⟩ := Bool.and_eq_true_iff.mp hand
          have hne : c ≠ q := by simpa using hc
          have hls : literals (.text c :: ps) = literals ps := rfl
          rw [hls, ← ih htail, render, scan, if_neg hne]
          constructor
          · intro h
            obtain ⟨ps', hscan, hps⟩ := Option.map_eq_some_iff.mp h
            rw [hscan, (List.cons.inj hps).2]
          · intro h
            rw [h]
            rfl
      | literal w =>
          have hls : literals (.literal w :: ps) = w :: literals ps := rfl
          rw [hls, List.forall_mem_cons, ← ih (spaced_tail hsp)]
          by_cases hw : q ∈ w
          · refine iff_of_false ?_ fun h => h.1 hw
            rw [render, scan, if_pos rfl]
            exact scan_ne_of_mem hw (head_render hsp) ps
          · rw [scan_literal hw hsp]
            constructor
            · intro h
              obtain ⟨ps', hscan, hps⟩ := Option.map_eq_some_iff.mp h
              exact ⟨hw, by rw [hscan, (List.cons.inj hps).2]⟩
            · rintro ⟨-, h⟩
              rw [h]
              rfl

/-- **Reading back what was rendered.** Literals and everything around them come out again exactly when no
    literal contains a quote. -/
theorem readsAs_render {q : α} {ps : List (Piece α)} (hsp : spaced q (skeleton ps) = true) :
    ReadsAs q (render q ps) (skeleton ps) (literals ps) ↔ ∀ s ∈ literals ps, q ∉ s := by
  rw [← scan_render hsp]
  constructor
  · rintro ⟨qs, hscan, hsk, hls⟩
    rw [hscan, pieces_ext hsk hls]
  · exact fun h => ⟨ps, h, rfl, rfl⟩

end Quoting
