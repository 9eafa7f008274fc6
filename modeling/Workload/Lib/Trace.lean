import Mathlib.Logic.Basic

/-!
# `Lib.Trace` — runs of a labelled step function

A system is a total function `step : σ → ε → σ`: the label `e : ε` carries everything the environment
decides (which operation, with which outcomes), so a run is a list of labels and the state it reaches is
computed. What the environment may do in a state is a predicate `ok : σ → ε → Prop` on the state *before*
the step.

* `exec` / `Along` / `Always` / `Once` — the state reached, a condition on every step, a property of every
  state, a step that occurs.
* `exec_invariant` / `always_of_invariant` — the induction, once for every invariant.
* `once_of_turned` — what only one kind of step brings about has been brought about by one.
* `always_iff_along` — when one step keeps `P` exactly under `good`, a whole run stays in `P` exactly when
  every step of it is `good`.
-/

namespace Trace

variable {σ ε : Type*} {step : σ → ε → σ} {ok good : σ → ε → Prop} {P Inv : σ → Prop}

/-- The state a run reaches. -/
def exec (step : σ → ε → σ) : σ → List ε → σ
  | s, [] => s
  | s, e :: es => exec step (step s e) es

/-- Every step of the run is taken in a state that allows it. -/
def Along (step : σ → ε → σ) (ok : σ → ε → Prop) : σ → List ε → Prop
  | _, [] => True
  | s, e :: es => ok s e ∧ Along step ok (step s e) es

/-- Every state of the run, the first one included, satisfies `P`. -/
def Always (step : σ → ε → σ) (P : σ → Prop) : σ → List ε → Prop
  | s, [] => P s
  | s, e :: es => P s ∧ Always step P (step s e) es

/-- Some step of the run satisfies `Q`. -/
def Once (step : σ → ε → σ) (Q : σ → ε → Prop) : σ → List ε → Prop
  | _, [] => False
  | s, e :: es => Q s e ∨ Once step Q (step s e) es

@[simp] theorem exec_nil (s : σ) : exec step s [] = s := rfl

@[simp] theorem exec_cons (s : σ) (e : ε) (es : List ε) :
    exec step s (e :: es) = exec step (step s e) es := rfl

@[simp] theorem along_nil (s : σ) : Along step ok s [] := trivial

@[simp] theorem along_cons (s : σ) (e : ε) (es : List ε) :
    Along step ok s (e :: es) ↔ ok s e ∧ Along step ok (step s e) es := Iff.rfl

@[simp] theorem always_nil (s : σ) : Always step P s [] ↔ P s := Iff.rfl

@[simp] theorem always_cons (s : σ) (e : ε) (es : List ε) :
    Always step P s (e :: es) ↔ P s ∧ Always step P (step s e) es := Iff.rfl

theorem exec_append (s : σ) (es fs : List ε) :
    exec step s (es ++ fs) = exec step (exec step s es) fs := by
  induction es generalizing s with
  | nil => rfl
  | cons e es ih => exact ih (step s e)

theorem along_append (s : σ) (es fs : List ε) :
    Along step ok s (es ++ fs) ↔ Along step ok s es ∧ Along step ok (exec step s es) fs := by
  induction es generalizing s with
  | nil => simp
  | cons e es ih => simp only [List.cons_append, along_cons, exec_cons, ih, and_assoc]

theorem along_of_forall {p : ε → Prop} {s : σ} {es : List ε} (h : ∀ e ∈ es, p e) :
    Along step (fun _ e => p e) s es := by
  induction es generalizing s with
  | nil => trivial
  | cons e es ih => exact ⟨h e List.mem_cons_self, ih fun e' he => h e' (List.mem_cons_of_mem e he)⟩

theorem along_true (s : σ) (es : List ε) : Along step (fun _ _ => True) s es :=
  along_of_forall fun _ _ => trivial

theorem Along.mono {ok' : σ → ε → Prop} (h : ∀ s e, ok s e → ok' s e) {s : σ} {es : List ε}
    (hrun : Along step ok s es) : Along step ok' s es := by
  induction es generalizing s with
  | nil => trivial
  | cons e es ih => exact ⟨h s e hrun.1, ih hrun.2⟩

theorem Along.and {ok' : σ → ε → Prop} {s : σ} {es : List ε} (h : Along step ok s es)
    (h' : Along step ok' s es) : Along step (fun s e => ok s e ∧ ok' s e) s es := by
  induction es generalizing s with
  | nil => trivial
  | cons e es ih => exact ⟨⟨h.1, h'.1⟩, ih h.2 h'.2⟩

theorem Always.head {s : σ} {es : List ε} (h : Always step P s es) : P s := by
  cases es with
  | nil => exact h
  | cons e es => exact h.1

theorem Always.last {s : σ} {es : List ε} (h : Always step P s es) : P (exec step s es) := by
  induction es generalizing s with
  | nil => exact h
  | cons e es ih => exact ih h.2

/-- **Invariant rule.** What holds at the start and is kept by every allowed step holds at the end. -/
theorem exec_invariant (hstep : ∀ s e, Inv s → ok s e → Inv (step s e)) {s : σ} {es : List ε}
    (hs : Inv s) (hrun : Along step ok s es) : Inv (exec step s es) := by
  induction es generalizing s with
  | nil => exact hs
  | cons e es ih => exact ih (hstep s e hs hrun.1) hrun.2

/-- The invariant rule, for every state the run passes through. -/
theorem always_of_invariant (hstep : ∀ s e, Inv s → ok s e → Inv (step s e))
    (hP : ∀ s, Inv s → P s) {s : σ} {es : List ε}
    (hs : Inv s) (hrun : Along step ok s es) : Always step P s es := by
  induction es generalizing s with
  | nil => exact hP s hs
  | cons e es ih => exact ⟨hP s hs, ih (hstep s e hs hrun.1) hrun.2⟩

/-- The invariant rule, for what every step of the run does. -/
theorem along_of_invariant {Q : σ → ε → Prop} (hstep : ∀ s e, Inv s → ok s e → Inv (step s e))
    (hQ : ∀ s e, Inv s → ok s e → Q s e) {s : σ} {es : List ε}
    (hs : Inv s) (hrun : Along step ok s es) : Along step Q s es := by
  induction es generalizing s with
  | nil => trivial
  | cons e es ih => exact ⟨hQ s e hs hrun.1, ih (hstep s e hs hrun.1) hrun.2⟩

/-- **Turning rule.** A property that a run starts without and that only a `Q`-step brings about holds at the end
    of a run only when the run has such a step. -/
theorem once_of_turned {Q : σ → ε → Prop} (hstep : ∀ s e, Inv s → ok s e → Inv (step s e))
    (hturn : ∀ s e, Inv s → ok s e → ¬ P s → P (step s e) → Q s e) {s : σ} {es : List ε}
    (hs : Inv s) (hnot : ¬ P s) (hrun : Along step ok s es) (hend : P (exec step s es)) : Once step Q s es := by
  induction es generalizing s with
  | nil => exact absurd hend hnot
  | cons e es ih =>
      by_cases hP : P (step s e)
      · exact Or.inl (hturn s e hs hrun.1 hnot hP)
      · exact Or.inr (ih (hstep s e hs hrun.1) hP hrun.2 hend)

/-- **Exact condition rule.** Under an invariant of all allowed runs, if a step out of a `P`-state ends in
    a `P`-state exactly when it is `good`, then a run stays in `P` exactly when each of its steps is. -/
theorem always_iff_along (hstep : ∀ s e, Inv s → ok s e → Inv (step s e))
    (hgood : ∀ s e, Inv s → P s → ok s e → (P (step s e) ↔ good s e)) {s : σ} {es : List ε}
    (hs : Inv s) (hP : P s) (hrun : Along step ok s es) :
    Always step P s es ↔ Along step good s es := by
  induction es generalizing s with
  | nil => exact ⟨fun _ => trivial, fun _ => hP⟩
  | cons e es ih =>
      have hs' : Inv (step s e) := hstep s e hs hrun.1
      constructor
      · intro h
        have hP' : P (step s e) := h.2.head
        exact ⟨(hgood s e hs hP hrun.1).mp hP', (ih hs' hP' hrun.2).mp h.2⟩
      · intro h
        have hP' : P (step s e) := (hgood s e hs hP hrun.1).mpr h.1
        exact ⟨hP, (ih hs' hP' hrun.2).mpr h.2⟩

end Trace
