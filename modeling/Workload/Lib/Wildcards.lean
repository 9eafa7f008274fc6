import Mathlib.Data.List.Infix

/-!
# `Lib.Wildcards` — what a pattern with wildcards means

A pattern is a list of tokens: a star for any sequence, a token for any one element, and literals. `same c d` says
that the literal `c` stands for the element `d`.

* `matches_star_append` — a star takes what is in front of a match.
* `matches_nil_iff` — the empty sequence matches exactly the patterns of stars.
* `not_matches_of_absent`, **`matches_skip`** — a star in front of a literal needs some place of it, and stops
  nowhere in front of the first one.
* `matches_least`, `length_least_le` — a shortest sequence of a pattern.
-/

namespace Wildcards

/-- A part of a pattern. -/
inductive Token (α : Type*) where
  | star
  | any
  | lit (c : α)

variable {α : Type*} {same : α → α → Prop} {ts : List (Token α)} {s u v : List α} {c d : α}

/-- The sequences a pattern stands for. -/
def Matches (same : α → α → Prop) : List (Token α) → List α → Prop
  | [], s => s = []
  | .star :: ts, s => ∃ v, v <:+ s ∧ Matches same ts v
  | .any :: ts, s => ∃ d v, s = d :: v ∧ Matches same ts v
  | .lit c :: ts, s => ∃ d v, s = d :: v ∧ same c d ∧ Matches same ts v

/-- The pattern is made of stars. -/
def AllStars (ts : List (Token α)) : Prop := ∀ t ∈ ts, t = .star

theorem matches_any_cons : Matches same (.any :: ts) (d :: v) ↔ Matches same ts v := by
  constructor
  · rintro ⟨d', v', heq, h⟩
    rwa [(List.cons.inj heq).2]
  · exact fun h => ⟨d, v, rfl, h⟩

theorem matches_lit_cons : Matches same (.lit c :: ts) (d :: v) ↔ same c d ∧ Matches same ts v := by
  constructor
  · rintro ⟨d', v', heq, hsame, h⟩
    obtain ⟨rfl, rfl⟩ := List.cons.inj heq
    exact ⟨hsame, h⟩
  · exact fun h => ⟨d, v, rfl, h⟩

theorem not_matches_any_nil : ¬ Matches same (.any :: ts) [] := by
  rintro ⟨d, v, heq, -⟩
  exact nomatch heq

theorem not_matches_lit_nil : ¬ Matches same (.lit c :: ts) [] := by
  rintro ⟨d, v, heq, -⟩
  exact nomatch heq

theorem matches_star_cons :
    Matches same (.star :: ts) (d :: v) ↔ Matches same ts (d :: v) ∨ Matches same (.star :: ts) v := by
  constructor
  · rintro ⟨w, hw, h⟩
    rcases List.suffix_cons_iff.mp hw with rfl | hw
    · exact Or.inl h
    · exact Or.inr ⟨w, hw, h⟩
  · rintro (h | ⟨w, hw, h⟩)
    · exact ⟨d :: v, List.suffix_rfl, h⟩
    · exact ⟨w, hw.trans (List.suffix_cons d v), h⟩

/-- A star takes what is in front of a match. -/
theorem matches_star_append (u : List α) (h : Matches same ts v) : Matches same (.star :: ts) (u ++ v) :=
  ⟨v, List.suffix_append u v, h⟩

/-- And what is in front of its own match. -/
theorem matches_star_extend (u : List α) (h : Matches same (.star :: ts) v) :
    Matches same (.star :: ts) (u ++ v) := by
  obtain ⟨w, hw, h⟩ := h
  exact ⟨w, hw.trans (List.suffix_append u v), h⟩

theorem matches_nil_iff : Matches same ts [] ↔ AllStars ts := by
  induction ts with
  | nil => exact iff_of_true rfl nofun
  | cons t ts ih =>
      unfold AllStars
      rw [List.forall_mem_cons]
      cases t with
      | star =>
          constructor
          · rintro ⟨v, hv, h⟩
            obtain rfl := List.eq_nil_of_suffix_nil hv
            exact ⟨rfl, ih.mp h⟩
          · exact fun h => ⟨[], List.suffix_rfl, ih.mpr h.2⟩
      | any => exact iff_of_false not_matches_any_nil fun h => nomatch h.1
      | lit c => exact iff_of_false not_matches_lit_nil fun h => nomatch h.1

/-- Stars match everything. -/
theorem matches_of_allStars (h : AllStars ts) (s : List α) : Matches same (.star :: ts) s :=
  ⟨[], List.nil_suffix, matches_nil_iff.mpr h⟩

/-- A star in front of a literal has to stop somewhere. -/
theorem not_matches_of_absent (h : ∀ d ∈ s, ¬ same c d) : ¬ Matches same (.star :: .lit c :: ts) s := by
  rintro ⟨v, hv, d, w, rfl, hsame, -⟩
  exact h d (hv.mem List.mem_cons_self) hsame

/-- It does not stop in front of an element the literal does not stand for. -/
theorem matches_skip (h : ∀ d ∈ u, ¬ same c d) :
    Matches same (.star :: .lit c :: ts) (u ++ v) ↔ Matches same (.star :: .lit c :: ts) v := by
  induction u with
  | nil => rfl
  | cons d u ih =>
      obtain ⟨hd, hu⟩ := List.forall_mem_cons.mp h
      rw [List.cons_append, matches_star_cons, matches_lit_cons, ih hu]
      exact or_iff_right fun hmatch => hd hmatch.1

/-! ## A shortest sequence -/

/-- The sequence with nothing for a star, and with the filler for any one element. -/
def least (filler : α) : List (Token α) → List α
  | [] => []
  | .star :: ts => least filler ts
  | .any :: ts => filler :: least filler ts
  | .lit c :: ts => c :: least filler ts

variable {filler : α} {ts' : List (Token α)}

theorem matches_least (filler : α) (hrefl : ∀ c, same c c) (ts : List (Token α)) :
    Matches same ts (least filler ts) := by
  induction ts with
  | nil => rfl
  | cons t ts ih =>
      cases t with
      | star => exact matches_star_append [] ih
      | any => exact matches_any_cons.mpr ih
      | lit c => exact matches_lit_cons.mpr ⟨hrefl c, ih⟩

theorem length_least_le (filler : α) (h : Matches same ts s) : (least filler ts).length ≤ s.length := by
  induction ts generalizing s with
  | nil => exact Nat.zero_le _
  | cons t ts ih =>
      cases t with
      | star =>
          obtain ⟨v, hv, h⟩ := h
          exact (ih h).trans hv.length_le
      | any =>
          obtain ⟨d, v, rfl, h⟩ := h
          exact Nat.succ_le_succ (ih h)
      | lit c =>
          obtain ⟨d, v, rfl, -, h⟩ := h
          exact Nat.succ_le_succ (ih h)

theorem least_append : least filler (ts ++ ts') = least filler ts ++ least filler ts' := by
  induction ts with
  | nil => rfl
  | cons t ts ih =>
      cases t with
      | star => exact ih
      | any => exact congrArg (List.cons filler) ih
      | lit c => exact congrArg (List.cons c) ih

theorem allStars_of_least (h : least filler ts = []) : AllStars ts := by
  induction ts with
  | nil => exact List.forall_mem_nil _
  | cons t ts ih =>
      cases t with
      | star => exact List.forall_mem_cons.mpr ⟨rfl, ih h⟩
      | any => exact nomatch h
      | lit c => exact nomatch h

end Wildcards
