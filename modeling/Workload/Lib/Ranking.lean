import Mathlib.Data.List.Nodup
import Mathlib.Algebra.Order.Ring.Nat
import Mathlib.Data.List.Perm.Basic
import Mathlib.Logic.Function.Basic
import Mathlib.Tactic.SplitIfs

/-!
# `Lib.Ranking` — a ranking kept by bubbling one raised entry

A `Board` is an array of members together with the position of each of them. `Ranked` says that the array
lists exactly the members, that the positions are right, and that scores do not increase along it. When the
score of one member goes up, `bubble` moves it towards the front past every strictly lower neighbour,
rewriting array and positions step by step; `Ranked.raise` is its contract.

The loop invariant is `Lifting`: everything but the raised member is in order, and nobody behind it beats it.
-/

namespace Ranking

variable {α : Type*}

/-- An array of members and the position of each. -/
@[ext]
structure Board (α : Type*) where
  order : List α
  rank : α → Nat

/-- The board lists exactly `members`, each at its `rank`. -/
structure Listed (members : List α) (b : Board α) : Prop where
  perm : b.order.Perm members
  rank : ∀ a ∈ members, b.order[b.rank a]? = some a

/-- The board lists `members` in non-increasing order of `score`. -/
structure Ranked (score : α → Nat) (members : List α) (b : Board α) : Prop
    extends Listed members b where
  sorted : b.order.Pairwise fun a c => score c ≤ score a

/-- Ranks can only be right if the scores are looked at on the members alone. -/
theorem Ranked.congr {score score' : α → Nat} {members : List α} {b : Board α}
    (h : Ranked score members b) (heq : ∀ a ∈ members, score' a = score a) :
    Ranked score' members b := by
  refine ⟨h.toListed, ?_⟩
  refine h.sorted.imp_of_mem fun {a c} ha hc hac => ?_
  rw [heq a (h.perm.mem_iff.mp ha), heq c (h.perm.mem_iff.mp hc)]
  exact hac

/-- Equal scores are in order however the array lists them. -/
theorem Listed.ranked {score : α → Nat} {members : List α} {b : Board α} {k : Nat}
    (h : Listed members b) (hk : ∀ a ∈ members, score a = k) : Ranked score members b := by
  refine ⟨h, ?_⟩
  have hall : ∀ a ∈ b.order, score a = k := fun a ha => hk a (h.perm.mem_iff.mp ha)
  have htriv : b.order.Pairwise fun _ _ => True := List.pairwise_of_forall fun _ _ => trivial
  exact htriv.imp_of_mem fun ha hc _ => ((hall _ hc).trans (hall _ ha).symm).le

/-- Everybody ranked in front scores at least as much. -/
theorem Ranked.score_le {score : α → Nat} {members : List α} {b : Board α}
    (h : Ranked score members b) {i j : Nat} {a c : α} (hij : i ≤ j)
    (ha : b.order[i]? = some a) (hc : b.order[j]? = some c) : score c ≤ score a := by
  obtain rfl | hlt := hij.eq_or_lt
  · rw [ha] at hc
    exact (Option.some.inj hc ▸ Nat.le_refl _)
  · obtain ⟨hi, rfl⟩ := List.getElem?_eq_some_iff.mp ha
    obtain ⟨hj, rfl⟩ := List.getElem?_eq_some_iff.mp hc
    exact List.pairwise_iff_getElem.mp h.sorted i j hi hj hlt

variable [DecidableEq α] [Inhabited α]

/-- Exchange `x`, at position `i + 1`, with its neighbour `g` in front. -/
def Board.advance (b : Board α) (g x : α) (i : Nat) : Board α where
  order := (b.order.set (i + 1) g).set i x
  rank := Function.update (Function.update b.rank g (i + 1)) x i

/-- Move `x`, at position `i` with score `k`, in front of every neighbour that scores less. -/
def bubble (score : α → Nat) (k : Nat) (x : α) : Nat → Board α → Board α
  | 0, b => b
  | i + 1, b =>
      if k ≤ score (b.order.getD i default) then b
      else bubble score k x i (b.advance (b.order.getD i default) x i)

/-- Exchanging two neighbours keeps the list and the ranks. -/
theorem Listed.advance {members : List α} {x : α} {i : Nat} {b : Board α} (h : Listed members b)
    (hnd : members.Nodup) (hx : b.order[i + 1]? = some x) :
    Listed members (b.advance (b.order.getD i default) x i) := by
  obtain ⟨hi, hget⟩ := List.getElem?_eq_some_iff.mp hx
  generalize hg : b.order.getD i default = g
  obtain ⟨front, behind, hsplit, hlen⟩ :
      ∃ front behind, b.order = front ++ g :: x :: behind ∧ front.length = i := by
    refine ⟨b.order.take i, b.order.drop (i + 2), ?_, by rw [List.length_take]; omega⟩
    conv_lhs => rw [← List.take_append_drop i b.order]
    rw [List.drop_eq_getElem_cons (by omega), List.drop_eq_getElem_cons hi, hget, ← hg]
    simp [List.getElem?_eq_getElem (show i < b.order.length by omega)]
  have horder : (b.advance g x i).order = front ++ x :: g :: behind := by
    simp [Board.advance, hsplit, ← hlen]
  have hnodup : (front ++ g :: x :: behind).Nodup := hsplit ▸ h.perm.nodup_iff.mpr hnd
  have hxg : x ≠ g := by
    intro he
    have := (List.nodup_append.mp hnodup).2.1
    simp [he] at this
  refine ⟨?_, ?_⟩
  · rw [horder]
    exact ((List.Perm.swap g x behind).append_left front).trans (hsplit ▸ h.perm)
  · intro a ha
    have hold := h.rank a ha
    rw [hsplit] at hold
    rw [horder]
    simp only [Board.advance]
    by_cases hax : a = x
    · subst hax
      simp [← hlen]
    · by_cases hag : a = g
      · subst hag
        simp [hxg.symm, ← hlen]
      · -- neither exchanged position holds `a`
        have hi : b.rank a ≠ i := by
          intro he
          rw [he, ← hlen] at hold
          simp at hold
          exact hag hold.symm
        have hi' : b.rank a ≠ i + 1 := by
          intro he
          rw [he, ← hlen] at hold
          simp at hold
          exact hax hold.symm
        rw [Function.update_of_ne hax, Function.update_of_ne hag]
        rcases Nat.lt_or_ge (b.rank a) i with hlt | hge
        · rw [List.getElem?_append_left (by omega)]
          rw [List.getElem?_append_left (by omega)] at hold
          exact hold
        · obtain ⟨k, hk⟩ : ∃ k, b.rank a = i + 2 + k := ⟨b.rank a - (i + 2), by omega⟩
          have hsub : i + 2 + k - front.length = k + 2 := by omega
          rw [List.getElem?_append_right (by omega), hk, hsub] at hold ⊢
          simpa using hold

omit [Inhabited α] in
/-- The raised member stands one position further to the front. -/
theorem advance_order {x g : α} {i : Nat} {b : Board α} (hi : i + 1 < b.order.length) :
    (b.advance g x i).order[i]? = some x := by
  simp [Board.advance, show i < b.order.length by omega]

/-- **`bubble` keeps the list and the ranks**, whatever the scores are. -/
theorem Listed.bubble {score : α → Nat} {members : List α} {x : α} {k : Nat} (hnd : members.Nodup) :
    ∀ {i : Nat} {b : Board α}, Listed members b → b.order[i]? = some x →
      Listed members (bubble score k x i b) := by
  intro i
  induction i with
  | zero => exact fun h _ => h
  | succ i ih =>
      intro b h hx
      rw [Ranking.bubble]
      split_ifs
      · exact h
      · exact ih (h.advance hnd hx) (advance_order (List.getElem?_eq_some_iff.mp hx).1)

/-- **Loop invariant of `bubble`.** `x` stands at position `i`; without it the array is in order; nobody
    behind `x` scores more. -/
structure Lifting (score : α → Nat) (members : List α) (x : α) (i : Nat) (b : Board α) : Prop
    extends Listed members b where
  split : ∃ front behind, b.order = front ++ x :: behind ∧ front.length = i ∧
    (front ++ behind).Pairwise (fun a c => score c ≤ score a) ∧ ∀ a ∈ behind, score a ≤ score x

omit [DecidableEq α] [Inhabited α] in
/-- Raising the score of one member of a ranked board starts the loop. -/
theorem Ranked.lifting {score score' : α → Nat} {members : List α} {b : Board α} {x : α}
    (h : Ranked score members b) (hnd : members.Nodup) (hx : x ∈ members)
    (hup : score x ≤ score' x) (heq : ∀ a ∈ members, a ≠ x → score' a = score a) :
    Lifting score' members x (b.rank x) b := by
  refine ⟨h.toListed, b.order.take (b.rank x), b.order.drop (b.rank x + 1), ?_⟩
  obtain ⟨hlt, hget⟩ := List.getElem?_eq_some_iff.mp (h.rank x hx)
  have hsplit : b.order = b.order.take (b.rank x) ++ x :: b.order.drop (b.rank x + 1) := by
    conv_lhs => rw [← List.take_append_drop (b.rank x) b.order]
    rw [List.drop_eq_getElem_cons hlt, hget]
  have hsorted := h.sorted
  have hnodup : b.order.Nodup := h.perm.nodup_iff.mpr hnd
  rw [hsplit] at hsorted hnodup
  have hsub := List.sublist_cons_self x (b.order.drop (b.rank x + 1)) |>.append_left
    (b.order.take (b.rank x))
  have hscore : ∀ a ∈ b.order.take (b.rank x) ++ b.order.drop (b.rank x + 1),
      score' a = score a := by
    intro a ha
    have hmem : a ∈ members := by
      rw [← h.perm.mem_iff, hsplit]
      exact hsub.subset ha
    refine heq a hmem fun hax => ?_
    have hxnot := (List.nodup_cons.mp (List.perm_middle.nodup_iff.mp hnodup)).1
    exact hxnot (hax ▸ ha)
  refine ⟨hsplit, by rw [List.length_take]; omega, ?_, ?_⟩
  · refine (hsorted.sublist hsub).imp_of_mem fun {a c} ha hc hac => ?_
    rw [hscore a ha, hscore c hc]
    exact hac
  · intro a ha
    have hbehind := (List.pairwise_cons.mp (List.pairwise_append.mp hsorted).2.1).1 a ha
    rw [hscore a (List.mem_append_right _ ha)]
    exact hbehind.trans hup

/-- One exchange keeps the loop invariant. -/
theorem Lifting.advance {score : α → Nat} {members : List α} {x : α} {i : Nat} {b : Board α}
    (h : Lifting score members x (i + 1) b) (hnd : members.Nodup)
    (hlt : score (b.order.getD i default) < score x) :
    Lifting score members x i (b.advance (b.order.getD i default) x i) := by
  obtain ⟨front, behind, hsplit, hlen, hsorted, hbehind⟩ := h.split
  have hx : b.order[i + 1]? = some x := by simp [hsplit, ← hlen]
  refine ⟨h.toListed.advance hnd hx, ?_⟩
  obtain ⟨front, g, rfl⟩ : ∃ front' g, front = front' ++ [g] := by
    obtain h | ⟨l, a, rfl⟩ := List.eq_nil_or_concat front
    · simp [h] at hlen
    · exact ⟨l, a, List.concat_eq_append⟩
  have hlen' : front.length = i := by simpa using hlen
  have hg : b.order.getD i default = g := by simp [hsplit, ← hlen']
  rw [hg] at hlt ⊢
  refine ⟨front, g :: behind, by simp [Board.advance, hsplit, ← hlen'], hlen', by simpa using hsorted, ?_⟩
  intro a ha
  rcases List.mem_cons.mp ha with rfl | ha
  · exact hlt.le
  · exact hbehind a ha

/-- **Contract of `bubble`.** From the loop invariant it ranks the board. -/
theorem Lifting.bubble_ranked {score : α → Nat} {members : List α} {x : α} (hnd : members.Nodup) :
    ∀ {i : Nat} {b : Board α}, Lifting score members x i b →
      Ranked score members (bubble score (score x) x i b) := by
  intro i
  induction i with
  | zero =>
      intro b h
      obtain ⟨front, behind, hsplit, hlen, hsorted, hbehind⟩ := h.split
      obtain rfl := List.eq_nil_of_length_eq_zero hlen
      refine ⟨h.toListed, ?_⟩
      rw [bubble, hsplit]
      exact List.pairwise_cons.mpr ⟨hbehind, hsorted⟩
  | succ i ih =>
      intro b h
      rw [bubble]
      by_cases hstop : score x ≤ score (b.order.getD i default)
      · -- the neighbour holds: everybody in front scores at least as much as it
        rw [if_pos hstop]
        refine ⟨h.toListed, ?_⟩
        obtain ⟨front, behind, hsplit, hlen, hsorted, hbehind⟩ := h.split
        obtain ⟨front, g, rfl⟩ : ∃ front' g, front = front' ++ [g] := by
          obtain h | ⟨l, a, rfl⟩ := List.eq_nil_or_concat front
          · simp [h] at hlen
          · exact ⟨l, a, List.concat_eq_append⟩
        have hlen' : front.length = i := by simpa using hlen
        have hg : b.order.getD i default = g := by simp [hsplit, ← hlen']
        rw [hg] at hstop
        rw [hsplit, List.pairwise_append]
        obtain ⟨hfront, hback, hcross⟩ := List.pairwise_append.mp hsorted
        refine ⟨hfront, List.pairwise_cons.mpr ⟨hbehind, hback⟩, ?_⟩
        intro a ha c hc
        rcases List.mem_cons.mp hc with rfl | hc
        · obtain ⟨-, -, hlast⟩ := List.pairwise_append.mp hfront
          rcases List.mem_append.mp ha with ha | ha
          · exact hstop.trans (hlast a ha g List.mem_cons_self)
          · rw [List.mem_singleton.mp ha]
            exact hstop
        · exact hcross a ha c hc
      · rw [if_neg hstop]
        exact ih (h.advance hnd (Nat.lt_of_not_le hstop))

/-- **Raising one member and bubbling it keeps the board ranked.** -/
theorem Ranked.raise {score score' : α → Nat} {members : List α} {b : Board α} {x : α}
    (h : Ranked score members b) (hnd : members.Nodup) (hx : x ∈ members)
    (hup : score x ≤ score' x) (heq : ∀ a ∈ members, a ≠ x → score' a = score a) :
    Ranked score' members (bubble score' (score' x) x (b.rank x) b) :=
  (h.lifting hnd hx hup heq).bubble_ranked hnd

end Ranking
