import Mathlib.Order.BooleanAlgebra.Set
import Mathlib.Logic.Function.Basic
import Mathlib.Logic.Relation
import Workload.Lib.Trace

/-!
# `Lib.Locking` — code that takes locks, and the order that keeps it from a deadlock

`Code` is what a piece of sequential code does to locks of a type `L`, with everything that is no lock left open:
which branch is taken, how often a loop goes round, which index is picked. Threads of a type `T` run such code over
one table of owners; a thread in front of a lock that is taken stays there.

The order is a rank on locks. `Fits` computes, against the set of locks held, whether code only takes locks above
all it holds and only returns what it holds.

* `neutral_block` / `neutral_within` / … — the rules for code that gives back all it takes, from rank `n` on.
* `Ordered.step` — one step keeps every thread within the order.
* **`no_cycle_of_ordered`** — threads within the order never wait in a circle.
-/

namespace Locking

open Relation

variable {L ι T : Type*}

/-- What code does to locks. -/
inductive Code (L ι : Type*) where
  | skip
  | lock (l : L)
  | unlock (l : L)
  | seq (p q : Code L ι)
  | branch (p q : Code L ι)
  /-- any number of rounds -/
  | loop (p : Code L ι)
  /-- for some index -/
  | pick (p : ι → Code L ι)

namespace Code

/-- One after the other. -/
def block : List (Code L ι) → Code L ι
  | [] => skip
  | p :: ps => seq p (block ps)

/-- A section under a lock. -/
def within (l : L) (ps : List (Code L ι)) : Code L ι := seq (lock l) (seq (block ps) (unlock l))

/-- One of them, or none. -/
def oneOf : List (Code L ι) → Code L ι
  | [] => skip
  | p :: ps => branch p (oneOf ps)

/-- Taken or not. -/
def opt (p : Code L ι) : Code L ι := branch p skip

end Code

/-! ## The order -/

variable {r : L → ℕ} {n m : ℕ} {l : L} {h : Set L} {p q : Code L ι} {ps : List (Code L ι)}
  {Q Q' : Set L → Prop}

/-- Started with the locks `h` held, the code takes only locks above all it holds, returns only what it holds, and
    leaves off with `Q`. -/
def Fits (r : L → ℕ) : Code L ι → Set L → (Set L → Prop) → Prop
  | .skip, h, Q => Q h
  | .lock l, h, Q => (∀ m ∈ h, r m < r l) ∧ Q (insert l h)
  | .unlock l, h, Q => l ∈ h ∧ Q (h \ {l})
  | .seq p q, h, Q => Fits r p h fun h => Fits r q h Q
  | .branch p q, h, Q => Fits r p h Q ∧ Fits r q h Q
  | .loop p, h, Q => Fits r p h (· = h) ∧ Q h
  | .pick p, h, Q => ∀ i, Fits r (p i) h Q

/-- The same for what a thread has still to do; at its end it holds nothing. -/
def FitsAll (r : L → ℕ) : List (Code L ι) → Set L → Prop
  | [], h => h = ∅
  | p :: k, h => Fits r p h (FitsAll r k)

theorem Fits.mono (hp : Fits r p h Q) (hQ : ∀ h, Q h → Q' h) : Fits r p h Q' := by
  induction p generalizing h Q Q' with
  | skip => exact hQ h hp
  | lock l => exact ⟨hp.1, hQ _ hp.2⟩
  | unlock l => exact ⟨hp.1, hQ _ hp.2⟩
  | seq p q ihp ihq => exact ihp hp fun h hq => ihq hq hQ
  | branch p q ihp ihq => exact ⟨ihp hp.1 hQ, ihq hp.2 hQ⟩
  | loop p => exact ⟨hp.1, hQ _ hp.2⟩
  | pick p ih => exact fun i => ih i (hp i) hQ

/-! ## Rules for code that gives back all it takes -/

/-- Started under locks below `n`, the code is in order and gives back all it takes. -/
def Neutral (r : L → ℕ) (n : ℕ) (p : Code L ι) : Prop := ∀ h, (∀ m ∈ h, r m < n) → Fits r p h (· = h)

/-- Started with `l` on top, the code is in order and returns `l`, with all it takes. -/
def Returns (r : L → ℕ) (l : L) (p : Code L ι) : Prop :=
  ∀ h, l ∉ h → (∀ m ∈ h, r m < r l) → Fits r p (insert l h) (· = h)

@[simp, grind ←] theorem neutral_skip : Neutral r n (.skip : Code L ι) := fun _ _ => rfl

theorem neutral_seq (hp : Neutral r n p) (hq : Neutral r n q) : Neutral r n (.seq p q) := by
  intro h hbelow
  refine (hp h hbelow).mono ?_
  rintro _ rfl
  exact hq _ hbelow

@[simp, grind ←] theorem neutral_branch (hp : Neutral r n p) (hq : Neutral r n q) : Neutral r n (.branch p q) :=
  fun h hbelow => ⟨hp h hbelow, hq h hbelow⟩

@[simp, grind ←] theorem neutral_opt (hp : Neutral r n p) : Neutral r n p.opt := neutral_branch hp neutral_skip

@[simp, grind ←] theorem neutral_loop (hp : Neutral r n p) : Neutral r n (.loop p) :=
  fun h hbelow => ⟨hp h hbelow, rfl⟩

@[simp, grind ←] theorem neutral_pick {p : ι → Code L ι} (hp : ∀ i, Neutral r n (p i)) : Neutral r n (.pick p) :=
  fun h hbelow i => hp i h hbelow

@[simp, grind ←] theorem neutral_block (hps : ∀ p ∈ ps, Neutral r n p) : Neutral r n (Code.block ps) := by
  induction ps with
  | nil => exact neutral_skip
  | cons p ps ih =>
      apply neutral_seq
      · exact hps p List.mem_cons_self
      · exact ih fun q hq => hps q (List.mem_cons_of_mem p hq)

@[simp, grind ←] theorem neutral_oneOf (hps : ∀ p ∈ ps, Neutral r n p) : Neutral r n (Code.oneOf ps) := by
  induction ps with
  | nil => exact neutral_skip
  | cons p ps ih =>
      apply neutral_branch
      · exact hps p List.mem_cons_self
      · exact ih fun q hq => hps q (List.mem_cons_of_mem p hq)

theorem returns_unlock : Returns r l (.unlock l : Code L ι) := by
  intro h hl _
  exact ⟨Set.mem_insert l h, Set.insert_sdiff_self_of_notMem hl⟩

theorem returns_branch (hp : Returns r l p) (hq : Returns r l q) : Returns r l (.branch p q) :=
  fun h hl hbelow => ⟨hp h hl hbelow, hq h hl hbelow⟩

/-- Above `l` the code may do what is neutral from the next rank on. -/
theorem returns_seq (hp : Neutral r (r l + 1) p) (hq : Returns r l q) : Returns r l (.seq p q) := by
  intro h hl hbelow
  have habove : ∀ m ∈ insert l h, r m < r l + 1 := by
    rintro m (rfl | hm)
    · exact Nat.lt_succ_self _
    · exact Nat.lt_succ_of_lt (hbelow m hm)
  refine (hp _ habove).mono ?_
  rintro _ rfl
  exact hq h hl hbelow

theorem neutral_lock (hn : n ≤ r l) (hp : Returns r l p) : Neutral r n (.seq (.lock l) p) := by
  intro h hbelow
  have hrank : ∀ m ∈ h, r m < r l := fun m hm => Nat.lt_of_lt_of_le (hbelow m hm) hn
  refine ⟨hrank, hp h ?_ hrank⟩
  intro hl
  exact Nat.lt_irrefl _ (hrank l hl)

@[simp] theorem neutral_within (hn : n ≤ r l) (hps : ∀ p ∈ ps, Neutral r (r l + 1) p) :
    Neutral r n (Code.within l ps) :=
  neutral_lock hn (returns_seq (neutral_block hps) returns_unlock)

/-! ## Threads that wait -/

/-- What the run decides where the code leaves it open. -/
inductive Choice (ι : Type*) where
  | first
  | second
  | index (i : ι)

/-- The owner of every lock, and what every thread has still to do. -/
structure System (L ι T : Type*) where
  owner : L → Option T
  code : T → List (Code L ι)

/-- The locks a thread holds. -/
def Held (s : System L ι T) (t : T) : Set L := { l | s.owner l = some t }

/-- The thread stands in front of the lock. -/
def At (s : System L ι T) (t : T) (l : L) : Prop := ∃ k, s.code t = .lock l :: k

/-- `t` waits for a lock that `u` holds. -/
def WaitsFor (s : System L ι T) (t u : T) : Prop := ∃ l, At s t l ∧ l ∈ Held s u

variable {s : System L ι T} {t u : T}

/-- Every thread is within the order. -/
def Ordered (r : L → ℕ) (s : System L ι T) : Prop := ∀ t, FitsAll r (s.code t) (Held s t)

/-- Threads that hold nothing, in front of neutral code. -/
theorem ordered_of_neutral {start : T → Code L ι} (hstart : ∀ t, Neutral r 0 (start t)) :
    Ordered r (⟨fun _ => none, fun t => [start t]⟩ : System L ι T) := by
  intro t
  refine (hstart t _ ?_).mono ?_
  · rintro m hm
    simp [Held] at hm
  · rintro _ rfl
    simp [FitsAll, Held]

/-- A thread that is waited for and waits itself, waits for a higher lock. -/
theorem Ordered.rank_lt {l' : L} (hs : Ordered r s) (hheld : l ∈ Held s u) (hat : At s u l') : r l < r l' := by
  obtain ⟨k, hcode⟩ := hat
  have hu : FitsAll r (s.code u) (Held s u) := hs u
  rw [hcode] at hu
  exact hu.1 l hheld

/-- Along a chain of waiting threads the ranks go up. -/
theorem Ordered.rank_lt_of_chain (hs : Ordered r s) (hchain : TransGen (WaitsFor s) t u) {l l' : L}
    (ht : At s t l) (hu : At s u l') : r l < r l' := by
  have hhere : ∀ {v w : T} {a b : L}, WaitsFor s v w → At s v a → At s w b → r a < r b := by
    rintro v w a b ⟨c, ⟨k, hc⟩, hheld⟩ ⟨k', ha⟩ hb
    rw [hc, List.cons.injEq, Code.lock.injEq] at ha
    exact ha.1 ▸ hs.rank_lt hheld hb
  induction hchain generalizing l' with
  | single hwait => exact hhere hwait ht hu
  | tail _ hwait ih =>
      have hmiddle := hwait
      obtain ⟨c, hc, _⟩ := hmiddle
      exact (ih hc).trans (hhere hwait hc hu)

/-- **No circle.** Threads within the order never wait for each other in a circle, nor one for itself. -/
theorem no_cycle_of_ordered (hs : Ordered r s) (t : T) : ¬ TransGen (WaitsFor s) t t := by
  intro hcycle
  obtain ⟨u, ⟨l, hat, _⟩, _⟩ := TransGen.head'_iff.mp hcycle
  exact Nat.lt_irrefl _ (hs.rank_lt_of_chain hcycle hat hat)

/-! ## Steps -/

/-- The thread `t` goes on with `k`. -/
def System.goto [DecidableEq T] (s : System L ι T) (t : T) (k : List (Code L ι)) : System L ι T :=
  { s with code := Function.update s.code t k }

def System.own [DecidableEq L] (s : System L ι T) (l : L) (t : Option T) : System L ι T :=
  { s with owner := Function.update s.owner l t }

/-- One step of one thread. -/
def step [DecidableEq L] [DecidableEq T] (s : System L ι T) (e : T × Choice ι) : System L ι T :=
  match s.code e.1, e.2 with
  | [], _ => s
  | .skip :: k, _ => s.goto e.1 k
  | .lock l :: k, _ => if s.owner l = none then (s.own l (some e.1)).goto e.1 k else s
  | .unlock l :: k, _ => (s.own l none).goto e.1 k
  | .seq p q :: k, _ => s.goto e.1 (p :: q :: k)
  | .branch p _ :: k, .first => s.goto e.1 (p :: k)
  | .branch _ q :: k, _ => s.goto e.1 (q :: k)
  | .loop p :: k, .first => s.goto e.1 (p :: .loop p :: k)
  | .loop _ :: k, _ => s.goto e.1 k
  | .pick p :: k, .index i => s.goto e.1 (p i :: k)
  | .pick _ :: _, _ => s

theorem held_goto [DecidableEq T] (k : List (Code L ι)) : Held (s.goto t k) u = Held s u := rfl

theorem held_own_other [DecidableEq L] {v : Option T} (hv : v ≠ some u) (hl : s.owner l ≠ some u) :
    Held (s.own l v) u = Held s u := by
  ext m
  by_cases hm : m = l
  · subst hm
    simp [Held, System.own, hv, hl]
  · simp [Held, System.own, hm]

theorem held_own_self [DecidableEq L] : Held (s.own l (some t)) t = insert l (Held s t) := by
  ext m
  by_cases hm : m = l
  · subst hm
    simp [Held, System.own]
  · simp [Held, System.own, hm]

theorem held_own_none [DecidableEq L] : Held (s.own l none) t = Held s t \ {l} := by
  ext m
  by_cases hm : m = l
  · subst hm
    simp [Held, System.own]
  · simp [Held, System.own, hm]

/-- A thread that goes on within the order, with the locks of the others left alone. -/
theorem Ordered.goto [DecidableEq T] (hs : Ordered r s) (s' : System L ι T) (hcode : s'.code = s.code)
    (hheld : ∀ u, u ≠ t → Held s' u = Held s u) {k : List (Code L ι)} (hk : FitsAll r k (Held s' t)) :
    Ordered r (s'.goto t k) := by
  intro u
  by_cases hu : u = t
  · subst hu
    have hsame : (s'.goto u k).code u = k := by simp [System.goto]
    rw [hsame, held_goto]
    exact hk
  · have hsame : (s'.goto t k).code u = s.code u := by simp [System.goto, hu, hcode]
    rw [hsame, held_goto, hheld u hu]
    exact hs u

/-- **One step** keeps every thread within the order. -/
theorem Ordered.step [DecidableEq L] [DecidableEq T] (hs : Ordered r s) (e : T × Choice ι) :
    Ordered r (step s e) := by
  obtain ⟨t, c⟩ := e
  have ht : FitsAll r (s.code t) (Held s t) := hs t
  have hstay : ∀ {k}, FitsAll r k (Held s t) → Ordered r (s.goto t k) :=
    fun hk => hs.goto s rfl (fun _ _ => rfl) hk
  unfold Locking.step
  dsimp only
  cases hcode : s.code t with
  | nil => exact hs
  | cons p k =>
      rw [hcode] at ht
      cases p with
      | skip => exact hstay ht
      | lock l =>
          dsimp only
          by_cases hfree : s.owner l = none
          · rw [if_pos hfree]
            refine hs.goto (s.own l (some t)) rfl (fun u hu => ?_) ?_
            · exact held_own_other (by simpa using Ne.symm hu) (by simp [hfree])
            · rw [held_own_self]
              exact ht.2
          · rw [if_neg hfree]
            exact hs
      | unlock l =>
          have hmine : s.owner l = some t := ht.1
          refine hs.goto (s.own l none) rfl (fun u hu => ?_) ?_
          · exact held_own_other (by simp) (by simpa [hmine] using Ne.symm hu)
          · rw [held_own_none]
            exact ht.2
      | seq p q => exact hstay ht
      | branch p q =>
          cases c with
          | first => exact hstay ht.1
          | second => exact hstay ht.2
          | index i => exact hstay ht.2
      | loop p =>
          cases c with
          | first =>
              refine hstay (ht.1.mono ?_)
              rintro _ rfl
              exact ht
          | second => exact hstay ht.2
          | index i => exact hstay ht.2
      | pick p =>
          cases c with
          | index i => exact hstay (ht i)
          | first => exact hs
          | second => exact hs

theorem Ordered.exec [DecidableEq L] [DecidableEq T] (hs : Ordered r s) (es : List (T × Choice ι)) :
    Ordered r (Trace.exec Locking.step s es) := by
  refine Trace.exec_invariant (fun s e hs _ => ?_) hs (Trace.along_true s es)
  exact hs.step e

end Locking
