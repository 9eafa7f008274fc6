import Workload.Lib.Linked
import Workload.Lib.MarkedStack
import Workload.Model.Paths
import Mathlib.Data.List.TakeDrop
import Mathlib.Data.List.TakeWhile

/-!
# `Correctness.Marks` — the marks of a path list are a stack

A component that `..` takes out keeps its node. `markEach` marks the components of a list one after the other;
those without a mark are the stack of the path (`evalPath`). The list of nodes at a head is a doubly linked list
of the heap (`Nodes`), and what its nodes say are their entries.

* **`live_markEach`** — the components without a mark are what the stack machine leaves.
* **`checkIgnore_step`** — one call of `workload_check_ignore_path_node` is one step of `markEach`.
* `restrip_run`, `clearIgnore_run`, `linkNode_eq` — the loops over a list, and two lists in a row.
-/

namespace Workload.Paths

open Memory MarkedStack

/-! ## The stack machine -/

/-- One component of a path. Names are pushed; a leading empty component is the root. -/
def evalComponent (leading : Bool) (stack : List Text) (component : Text) : List Text :=
  if component = [] then if leading then stack ++ [component] else stack
  else if component = "..".toList then if stack = [] ∨ stack = [[]] then stack else stack.dropLast
  else if component = ".".toList then stack
  else stack ++ [component]

/-- The components from left to right. -/
def evalPath : List Text → List Text
  | [] => []
  | component :: rest => rest.foldl (evalComponent false) (evalComponent true [] component)

/-- The components of a path: what stands between its separators, without an empty one at its end. -/
def components (path : Text) : List Text :=
  let parts := path.splitOnP fun c => "/\\".toList.contains c
  if parts.getLast? = some [] then parts.dropLast else parts

/-! ## Marks -/

/-- What a node says: its component and its mark. -/
abbrev Entry := Option Text × Bool

def isRoot (string : Option Text) : Bool := decide (workloadCheckString string = [])

/-- The component behind `l`, marked as soon as it is there. -/
def markNode (l : List Entry) (string : Option Text) : List Entry :=
  if workloadCheckString string = [] then l ++ [(string, decide (l ≠ []))]
  else if workloadCheckString string = "..".toList then markLast isRoot l ++ [(string, true)]
  else if workloadCheckString string = ".".toList then l ++ [(string, true)]
  else l ++ [(string, false)]

/-- Each component is marked once, in order. -/
def markEach (strings : List (Option Text)) : List Entry := strings.foldl markNode []

theorem markEach_concat (strings : List (Option Text)) (string : Option Text) :
    markEach (strings ++ [string]) = markNode (markEach strings) string := by
  unfold markEach
  rw [List.foldl_concat]

theorem map_fst_markNode (l : List Entry) (string : Option Text) :
    (markNode l string).map Prod.fst = l.map Prod.fst ++ [string] := by
  unfold markNode
  split_ifs <;> simp only [List.map_append, List.map_cons, List.map_nil, map_fst_markLast]

theorem map_fst_markEach (strings : List (Option Text)) : (markEach strings).map Prod.fst = strings := by
  induction strings using List.reverseRecOn with
  | nil => rfl
  | append_singleton strings string ih => rw [markEach_concat, map_fst_markNode, ih]

theorem markEach_eq_nil {strings : List (Option Text)} : markEach strings = [] ↔ strings = [] := by
  constructor
  · intro h
    rw [← map_fst_markEach strings, h]
    rfl
  · rintro rfl
    rfl

theorem evalPath_concat (cs : List Text) (c : Text) :
    evalPath (cs ++ [c]) = evalComponent (decide (cs = [])) (evalPath cs) c := by
  cases cs with
  | nil => rfl
  | cons d cs => exact List.foldl_concat _ _ _ _

/-- The names on the stack. -/
def names (l : List (Option Text)) : List Text := l.map workloadCheckString

theorem names_concat (l : List (Option Text)) (string : Option Text) :
    names (l ++ [string]) = names l ++ [workloadCheckString string] := List.map_append

/-- The root is at the bottom. -/
theorem root_bottom (cs : List Text) : [] ∉ (evalPath cs).tail := by
  induction cs using List.reverseRecOn with
  | nil => exact List.not_mem_nil
  | append_singleton cs c ih =>
      rw [evalPath_concat]
      unfold evalComponent
      split_ifs with hempty hleading
      · -- the root itself
        obtain rfl : cs = [] := of_decide_eq_true hleading
        rw [hempty]
        exact List.not_mem_nil
      · exact ih
      · exact ih
      · intro hmem
        rw [List.tail_dropLast] at hmem
        exact ih (List.dropLast_subset _ hmem)
      · exact ih
      · cases hstack : evalPath cs with
        | nil => exact List.not_mem_nil
        | cons d stack =>
            rw [hstack] at ih
            rw [List.cons_append, List.tail_cons, List.mem_append, List.mem_singleton]
            rintro (hmem | hc)
            · exact ih hmem
            · exact hempty hc.symm

/-- Popping, with the root at the bottom only. -/
theorem names_pop (l : List (Option Text)) (hroot : [] ∉ (names l).tail) :
    names (pop isRoot l) = if names l = [] ∨ names l = [[]] then names l else (names l).dropLast := by
  induction l using List.reverseRecOn with
  | nil => rfl
  | append_singleton l string _ =>
      rw [names_concat] at hroot ⊢
      rw [pop_concat]
      by_cases hempty : workloadCheckString string = []
      · have hnil : names l = [] := by
          cases hl : names l with
          | nil => rfl
          | cons d stack =>
              -- a root above another entry
              rw [hl, hempty, List.cons_append, List.tail_cons] at hroot
              exact absurd (List.mem_append_right _ List.mem_cons_self) hroot
        have hroot : isRoot string = true := decide_eq_true hempty
        rw [if_pos hroot, names_concat, hnil, hempty]
        rfl
      · have hne : ¬(names l ++ [workloadCheckString string] = [] ∨
            names l ++ [workloadCheckString string] = [[]]) := by
          rintro (h | h)
          · exact List.concat_ne_nil _ _ h
          · exact hempty (List.cons.inj (List.append_inj' (h.trans (List.nil_append _).symm) rfl).2).1
        have hroot : isRoot string ≠ true := fun h => hempty (of_decide_eq_true h)
        rw [if_neg hroot, if_neg hne, List.dropLast_concat]

/-- **The components without a mark are the stack.** -/
theorem live_markEach (strings : List (Option Text)) :
    names (live (markEach strings)) = evalPath (names strings) := by
  induction strings using List.reverseRecOn with
  | nil => rfl
  | append_singleton strings string ih =>
      rw [markEach_concat, names_concat, evalPath_concat]
      unfold markNode evalComponent
      have hleading : decide (names strings = []) = decide (markEach strings = []) := by
        rw [decide_eq_decide, markEach_eq_nil]
        exact List.map_eq_nil_iff
      by_cases hempty : workloadCheckString string = []
      · rw [if_pos hempty, if_pos hempty, hleading]
        by_cases hfirst : markEach strings = []
        · simp only [hfirst, ne_eq, not_true_eq_false, decide_false, decide_true, live_concat_false, if_true]
          rw [names_concat, ← hfirst, ih]
        · simp only [hfirst, ne_eq, not_false_eq_true, decide_false, decide_true, live_concat_true]
          exact ih
      · rw [if_neg hempty, if_neg hempty]
        split_ifs with hup hbottom hdot
        · rw [live_concat_true, live_markLast, names_pop _ (ih ▸ root_bottom _), ih, if_pos hbottom]
        · rw [live_concat_true, live_markLast, names_pop _ (ih ▸ root_bottom _), ih, if_neg hbottom]
        · rw [live_concat_true, ih]
        · rw [live_concat_false, names_concat, ih]

/-! ## Lists of nodes -/

/-- The list of nodes at `head`. -/
abbrev Nodes (m : Heap StringNode) (head : Option NodePtr) (l : List (NodePtr × StringNode)) : Prop :=
  Linked StringNode.prev StringNode.next m head l

def entry (x : NodePtr × StringNode) : Entry := (x.2.string, x.2.ignore)

def strings (l : List (NodePtr × StringNode)) : List (Option Text) := l.map fun x => x.2.string

/-- Between the two heaps only these nodes change. -/
structure Changes (m m' : Heap StringNode) (ps : List NodePtr) : Prop where
  size : m'.size = m.size
  other : ∀ q, q ∉ ps → m'.read q = m.read q

theorem map_fst_entry (l : List (NodePtr × StringNode)) : (l.map entry).map Prod.fst = strings l := by
  rw [List.map_map]
  rfl

theorem strings_append (l l' : List (NodePtr × StringNode)) : strings (l ++ l') = strings l ++ strings l' :=
  List.map_append

namespace Changes

variable {m m' m'' : Heap StringNode} {ps qs : List NodePtr}

theorem refl (m : Heap StringNode) (ps : List NodePtr) : Changes m m ps := ⟨rfl, fun _ _ => rfl⟩

theorem trans (h : Changes m m' ps) (h' : Changes m' m'' ps) : Changes m m'' ps :=
  ⟨h'.size.trans h.size, fun q hq => (h'.other q hq).trans (h.other q hq)⟩

theorem mono (h : Changes m m' ps) (hps : ps ⊆ qs) : Changes m m' qs :=
  ⟨h.size, fun q hq => h.other q fun hmem => hq (hps hmem)⟩

end Changes

section Nodes

variable {m : Heap StringNode} {head : Option NodePtr} {l l₁ l₂ rest : List (NodePtr × StringNode)} {p : NodePtr}
  {a : StringNode} {n : Nat}

/-- A node gets its mark. -/
theorem Nodes.setIgnore (h : Nodes m head (l₁ ++ (p, a) :: l₂)) (ignore : Bool) :
    ∃ m', m.write p { a with ignore := ignore } = some m' ∧
      Nodes m' head (l₁ ++ (p, { a with ignore := ignore }) :: l₂) ∧ Changes m m' [p] := by
  obtain ⟨m', hwrite, hnodes, hsize, hother⟩ := h.set { a with ignore := ignore } rfl rfl
  exact ⟨m', hwrite, hnodes, hsize, fun q hq => hother q fun he => hq (he ▸ List.mem_cons_self)⟩

/-- **The search of `..`** marks the last component without a mark in front of it. -/
theorem ignoreTrace_eq (h : Nodes m head (l ++ rest)) (hn : l.length ≤ n) :
    ∃ m' l', ignoreTrace n (l.map Prod.fst).getLast? m = some m' ∧ Nodes m' head (l' ++ rest) ∧
      l'.map Prod.fst = l.map Prod.fst ∧ l'.map entry = markLast isRoot (l.map entry) ∧
      Changes m m' (l.map Prod.fst) := by
  induction l using List.reverseRecOn generalizing n rest with
  | nil => exact ⟨m, [], by cases n <;> rfl, h, rfl, rfl, .refl m _⟩
  | append_singleton l x ih =>
      obtain ⟨p, a⟩ := x
      obtain ⟨n, rfl⟩ : ∃ n', n = n' + 1 := ⟨n - 1, by rw [List.length_append, List.length_singleton] at hn; omega⟩
      rw [List.append_assoc, List.singleton_append] at h
      obtain ⟨hread, hprev, -⟩ := h.pointers
      have hlast : ((l ++ [(p, a)]).map Prod.fst).getLast? = some p := by
        rw [List.map_append]
        exact List.getLast?_concat
      have hsub : l.map Prod.fst ⊆ (l ++ [(p, a)]).map Prod.fst := List.map_subset _ (List.subset_append_left _ _)
      have hp : [p] ⊆ (l ++ [(p, a)]).map Prod.fst := by simp
      have hentry : (l ++ [(p, a)]).map entry = l.map entry ++ [(a.string, a.ignore)] := List.map_append
      rw [hlast, hentry, ignoreTrace, hread, Option.bind_eq_bind, Option.bind_some]
      cases hignore : a.ignore with
      | true =>
          -- the search goes on in front of it
          have hlen : l.length ≤ n := by
            rw [List.length_append, List.length_singleton] at hn
            omega
          obtain ⟨m', l', htrace, hnodes, hptrs, hmarks, hchanges⟩ := ih h hlen
          rw [hprev, if_pos rfl]
          refine ⟨m', l' ++ [(p, a)], htrace, by rwa [List.append_assoc], ?_, ?_, hchanges.mono hsub⟩
          · rw [List.map_append, hptrs, List.map_append]
          · rw [List.map_append, hmarks, markLast_concat_true]
            exact congrArg (_ ++ [·]) (Prod.ext rfl hignore)
      | false =>
          rw [if_neg Bool.false_ne_true, markLast_concat_false]
          by_cases hroot : workloadCheckString a.string = []
          · rw [if_pos hroot]
            refine ⟨m, l ++ [(p, a)], rfl, by rwa [List.append_assoc], rfl, ?_, .refl m _⟩
            rw [hentry, hignore, show isRoot a.string = true from decide_eq_true hroot]
            rfl
          · rw [if_neg hroot]
            obtain ⟨m', hwrite, hnodes, hchanges⟩ := Nodes.setIgnore h true
            refine ⟨m', l ++ [(p, { a with ignore := true })], hwrite, by rwa [List.append_assoc], ?_, ?_,
              hchanges.mono hp⟩
            · rw [List.map_append, List.map_append]
              rfl
            · rw [List.map_append, show isRoot a.string = false from decide_eq_false hroot]
              rfl

/-- **One call** is one step of `markEach`. -/
theorem checkIgnore_step (h : Nodes m head (l₁ ++ (p, a) :: l₂)) (ha : a.ignore = false) :
    ∃ m' l', workloadCheckIgnorePathNode m p = some m' ∧ Nodes m' head (l' ++ l₂) ∧
      l'.map Prod.fst = l₁.map Prod.fst ++ [p] ∧ l'.map entry = markNode (l₁.map entry) a.string ∧
      Changes m m' (l₁.map Prod.fst ++ [p]) := by
  obtain ⟨hread, hprev, -⟩ := h.pointers
  obtain ⟨m₁, hwrite, hnodes, hchanges⟩ := Nodes.setIgnore h true
  have hchanges := hchanges.mono (List.subset_append_right (l₁.map Prod.fst) [p])
  -- the two ways to leave the components in front as they are
  have hkeep : ∃ m' l', some m = some m' ∧ Nodes m' head (l' ++ l₂) ∧ l'.map Prod.fst = l₁.map Prod.fst ++ [p] ∧
      l'.map entry = l₁.map entry ++ [(a.string, false)] ∧ Changes m m' (l₁.map Prod.fst ++ [p]) := by
    refine ⟨m, l₁ ++ [(p, a)], rfl, by rwa [List.append_assoc], List.map_append, ?_, .refl m _⟩
    rw [List.map_append, ← ha]
    rfl
  have hmark : ∃ m' l', m.write p { a with ignore := true } = some m' ∧ Nodes m' head (l' ++ l₂) ∧
      l'.map Prod.fst = l₁.map Prod.fst ++ [p] ∧ l'.map entry = l₁.map entry ++ [(a.string, true)] ∧
      Changes m m' (l₁.map Prod.fst ++ [p]) :=
    ⟨m₁, l₁ ++ [(p, { a with ignore := true })], hwrite, by rwa [List.append_assoc], List.map_append,
      List.map_append, hchanges⟩
  have hfirst : a.prev = none ↔ l₁.map entry = [] := by
    rw [hprev, List.getLast?_eq_none_iff, List.map_eq_nil_iff, List.map_eq_nil_iff]
  unfold workloadCheckIgnorePathNode markNode
  rw [hread, Option.bind_eq_bind, Option.bind_some]
  dsimp only
  by_cases hempty : workloadCheckString a.string = []
  · rw [if_pos hempty, if_pos hempty]
    by_cases hnone : a.prev = none
    · rw [if_pos hnone, decide_eq_false (not_not.mpr (hfirst.mp hnone))]
      exact hkeep
    · have hmore : l₁.map entry ≠ [] := fun h => hnone (hfirst.mpr h)
      rw [if_neg hnone, decide_eq_true hmore]
      exact hmark
  · rw [if_neg hempty, if_neg hempty]
    by_cases hup : workloadCheckString a.string = "..".toList
    · rw [if_pos hup, if_pos hup, hwrite, Option.bind_eq_bind, Option.bind_some, hprev]
      have hlen : l₁.length ≤ m₁.size := by
        have hle := hnodes.length_le
        rw [List.length_append] at hle
        omega
      obtain ⟨m', l', htrace, hnodes', hptrs, hmarks, hchanges'⟩ := ignoreTrace_eq hnodes hlen
      refine ⟨m', l' ++ [(p, { a with ignore := true })], htrace, by rwa [List.append_assoc], ?_, ?_,
        hchanges.trans (hchanges'.mono (List.subset_append_left _ _))⟩
      · rw [List.map_append, hptrs]
        rfl
      · rw [List.map_append, hmarks]
        rfl
    · rw [if_neg hup, if_neg hup]
      split_ifs
      · exact hmark
      · exact hkeep

/-- **Marking the rest of a list.** -/
theorem restrip_run (h : Nodes m head (l₁ ++ l₂)) (hmarks : l₁.map entry = markEach (strings l₁))
    (hclear : ∀ x ∈ l₂, x.2.ignore = false) (hn : l₂.length ≤ n) :
    ∃ m' l', restrip n (l₂.map Prod.fst).head? m = some m' ∧ Nodes m' head l' ∧
      l'.map Prod.fst = (l₁ ++ l₂).map Prod.fst ∧ l'.map entry = markEach (strings (l₁ ++ l₂)) ∧
      Changes m m' ((l₁ ++ l₂).map Prod.fst) := by
  induction l₂ generalizing n m l₁ with
  | nil =>
      rw [List.append_nil] at h ⊢
      exact ⟨m, l₁, by cases n <;> rfl, h, rfl, hmarks, .refl m _⟩
  | cons x l₂ ih =>
      obtain ⟨p, a⟩ := x
      obtain ⟨n, rfl⟩ : ∃ n', n = n' + 1 := ⟨n - 1, by rw [List.length_cons] at hn; omega⟩
      obtain ⟨hx, hrest⟩ := List.forall_mem_cons.mp hclear
      obtain ⟨m₁, l', hcheck, hnodes, hptrs, hentries, hchanges⟩ := checkIgnore_step h hx
      have hstrings : strings l' = strings (l₁ ++ [(p, a)]) := by
        rw [← map_fst_entry, hentries, map_fst_markNode, map_fst_entry, strings_append]
        rfl
      have hmarks' : l'.map entry = markEach (strings l') := by
        rw [hentries, hmarks, ← markEach_concat, hstrings, strings_append]
        rfl
      have hassoc : (l₁ ++ (p, a) :: l₂).map Prod.fst = (l' ++ l₂).map Prod.fst := by
        rw [List.map_append, List.map_append, hptrs, List.append_assoc]
        rfl
      have hassoc' : strings (l₁ ++ (p, a) :: l₂) = strings (l' ++ l₂) := by
        rw [List.append_cons, strings_append, strings_append l', hstrings]
      -- the node reads as before, but for its mark
      obtain ⟨l₀, x, rfl⟩ : ∃ l₀ x, l' = l₀ ++ [x] := by
        refine (List.eq_nil_or_concat' l').resolve_left ?_
        rintro rfl
        exact List.concat_ne_nil _ _ hptrs.symm
      obtain ⟨q, b⟩ := x
      obtain rfl : q = p := by
        rw [List.map_append] at hptrs
        exact (List.cons.inj (List.append_inj' hptrs rfl).2).1
      have hnodes' := hnodes
      rw [List.append_assoc, List.singleton_append] at hnodes'
      obtain ⟨hread, -, hnext⟩ := hnodes'.pointers
      obtain ⟨m', l'', hloop, hnodes'', hptrs', hentries', hchanges'⟩ :=
        ih hnodes hmarks' hrest (Nat.le_of_succ_le_succ hn)
      refine ⟨m', l'', ?_, hnodes'', hptrs'.trans hassoc.symm, by rw [hentries', hassoc'], ?_⟩
      · rw [List.map_cons, List.head?_cons]
        simp only [restrip, hcheck, hread, hnext, Option.bind_eq_bind, Option.bind_some]
        exact hloop
      · rw [hassoc]
        refine (hchanges.mono ?_).trans hchanges'
        rw [← hptrs]
        exact List.map_subset _ (List.subset_append_left _ _)

/-- **Clearing the marks** of the rest of a list. -/
theorem clearIgnore_run (h : Nodes m head (l₁ ++ l₂)) (hn : l₂.length ≤ n) :
    ∃ m' l', clearIgnore n (l₂.map Prod.fst).head? m = some m' ∧ Nodes m' head (l₁ ++ l') ∧
      l'.map Prod.fst = l₂.map Prod.fst ∧ strings l' = strings l₂ ∧ (∀ x ∈ l', x.2.ignore = false) ∧
      Changes m m' (l₂.map Prod.fst) := by
  induction l₂ generalizing n m l₁ with
  | nil => exact ⟨m, [], by cases n <;> rfl, h, rfl, rfl, nofun, .refl m _⟩
  | cons x l₂ ih =>
      obtain ⟨p, a⟩ := x
      obtain ⟨n, rfl⟩ : ∃ n', n = n' + 1 := ⟨n - 1, by rw [List.length_cons] at hn; omega⟩
      obtain ⟨hread, -, hnext⟩ := h.pointers
      obtain ⟨m₁, hwrite, hnodes, hchanges⟩ := Nodes.setIgnore h false
      rw [List.append_cons] at hnodes
      obtain ⟨m', l', hloop, hnodes', hptrs, hstrings, hclear, hchanges'⟩ :=
        ih hnodes (Nat.le_of_succ_le_succ hn)
      refine ⟨m', (p, { a with ignore := false }) :: l', ?_, by rwa [List.append_cons], ?_, ?_,
        List.forall_mem_cons.mpr ⟨rfl, hclear⟩, ?_⟩
      · rw [List.map_cons, List.head?_cons]
        simp only [clearIgnore, hread, hwrite, Option.bind_eq_bind, Option.bind_some]
        rw [hnext]
        exact hloop
      · rw [List.map_cons, List.map_cons, hptrs]
      · exact congrArg (a.string :: ·) hstrings
      · rw [List.map_cons]
        exact (hchanges.mono (by simp)).trans (hchanges'.mono (List.subset_cons_self _ _))

/-- Freeing a list. -/
theorem freeStringNode_run {before : Option NodePtr}
    (h : Segment StringNode.prev StringNode.next m before head none l) (hnd : (l.map Prod.fst).Nodup)
    (hn : l.length ≤ n) :
    ∃ m', workloadFreeStringNode n head m = some m' ∧ Changes m m' (l.map Prod.fst) := by
  induction l generalizing n m before head with
  | nil =>
      obtain rfl : head = none := h
      exact ⟨m, by cases n <;> rfl, .refl m _⟩
  | cons x l ih =>
      obtain ⟨p, a⟩ := x
      obtain ⟨n, rfl⟩ : ∃ n', n = n' + 1 := ⟨n - 1, by rw [List.length_cons] at hn; omega⟩
      obtain ⟨rfl, hread, -, hs⟩ := h
      obtain ⟨hp, hnd⟩ := List.nodup_cons.mp hnd
      obtain ⟨m₁, hfree, hsize, hreads⟩ := Heap.free_eq hread
      have hother : ∀ q, q ≠ p → m₁.read q = m.read q := fun q hq => by rw [hreads, if_neg hq]
      obtain ⟨m', hloop, hchanges⟩ := ih (hs.frame fun x hx => hother x.1 fun he =>
        hp (List.mem_map.mpr ⟨x, hx, he⟩)) hnd (Nat.le_of_succ_le_succ hn)
      refine ⟨m', ?_, hchanges.size.trans hsize, fun q hq => ?_⟩
      · simp only [workloadFreeStringNode, hread, hfree, Option.bind_eq_bind, Option.bind_some]
        exact hloop
      · obtain ⟨hqp, hq⟩ := not_or.mp (List.mem_cons.not.mp hq)
        exact (hchanges.other q hq).trans (hother q hqp)

theorem lastNode_eq {before : Option NodePtr} {last : NodePtr × StringNode}
    (h : Segment StringNode.prev StringNode.next m before (some p) none (l ++ [last])) (hn : l.length < n) :
    lastNode n p m = some last.1 := by
  induction l generalizing n before p with
  | nil =>
      obtain ⟨n, rfl⟩ : ∃ n', n = n' + 1 := ⟨n - 1, by omega⟩
      obtain ⟨hp, hread, -, hnext⟩ := h
      obtain rfl := Option.some.inj hp
      have hnext : last.2.next = none := hnext
      rw [lastNode, hread, Option.bind_eq_bind, Option.bind_some, hnext]
  | cons x l ih =>
      obtain ⟨n, rfl⟩ : ∃ n', n = n' + 1 := ⟨n - 1, by omega⟩
      obtain ⟨hp, hread, -, hs⟩ := h
      obtain rfl := Option.some.inj hp
      have hlen : l.length < n := by
        rw [List.length_cons] at hn
        omega
      rw [lastNode, hread, Option.bind_eq_bind, Option.bind_some]
      cases hnext : x.2.next with
      | none =>
          rw [hnext] at hs
          exact absurd hs.head_eq (by cases l <;> exact nofun)
      | some q =>
          rw [hnext] at hs
          exact ih hs hlen

/-- **Two lists in a row.** -/
theorem linkNode_eq {node : Option NodePtr} (h : Nodes m head l₁) (h' : Nodes m node l₂)
    (hdisj : ∀ x ∈ l₁, ∀ y ∈ l₂, x.1 ≠ y.1) :
    ∃ head' m' l, linkNode m head node = some (head', m') ∧ Nodes m' head' l ∧
      l.map Prod.fst = (l₁ ++ l₂).map Prod.fst ∧ strings l = strings (l₁ ++ l₂) ∧
      Changes m m' ((l₁ ++ l₂).map Prod.fst) := by
  cases l₂ with
  | nil =>
      obtain rfl : node = none := h'.head_eq
      rw [List.append_nil]
      exact ⟨head, m, l₁, by cases head <;> rfl, h, rfl, rfl, .refl m _⟩
  | cons y l₂ =>
      obtain ⟨p, b⟩ := y
      obtain rfl : node = some p := h'.head_eq
      have hfront : Nodes m (some p) ([] ++ (p, b) :: l₂) := h'
      have hb := hfront.pointers
      rcases List.eq_nil_or_concat' l₁ with rfl | ⟨l₀, ⟨t, a⟩, rfl⟩
      · -- the new list is the list
        obtain rfl : head = none := h.head_eq
        obtain ⟨m', hwrite, hnodes, hsize, hother⟩ := hfront.set { b with prev := none } hb.2.1.symm rfl
        refine ⟨some p, m', (p, { b with prev := none }) :: l₂, ?_, hnodes, rfl, rfl, hsize, fun q hq => ?_⟩
        · simp only [linkNode, hb.1, hwrite, Option.bind_eq_bind, Option.bind_some]
        · exact hother q fun he => hq (he ▸ List.mem_cons_self)
      · obtain ⟨first, rfl⟩ : ∃ first, head = some first := by
          rw [h.head_eq]
          cases l₀ <;> exact ⟨_, rfl⟩
        have hlen : l₀.length < m.size := by
          have hle := h.length_le
          rw [List.length_append, List.length_singleton] at hle
          exact hle
        have hlast : lastNode m.size first m = some t := lastNode_eq h.segment hlen
        have hta : m.read t = some a := h.pointers.1
        -- the two nodes are written one after the other
        have htp : t ≠ p := hdisj (t, a) (by simp) (p, b) List.mem_cons_self
        obtain ⟨m₁, hwrite, hsize, hreads⟩ := Heap.write_eq hb.1 (b := { b with prev := some t })
        have hta' : m₁.read t = some a := by rw [hreads, if_neg htp, hta]
        obtain ⟨m₂, hwrite', hsize', hreads'⟩ := Heap.write_eq hta' (b := { a with next := some p })
        have hother : ∀ q, q ≠ t → q ≠ p → m₂.read q = m.read q := by
          intro q hqt hqp
          rw [hreads', if_neg hqt, hreads, if_neg hqp]
        refine ⟨some first, m₂, l₀ ++ (t, { a with next := some p }) :: (p, { b with prev := some t }) :: l₂,
          ?_, ?_, by simp, by simp [strings], hsize'.trans hsize, fun q hq => ?_⟩
        · simp only [linkNode, hlast, hb.1, hwrite, hta', hwrite', Option.bind_eq_bind, Option.bind_some]
        · obtain ⟨-, -, -, hrest⟩ := h'.segment
          have hdisj' : ∀ x ∈ l₀ ++ [(t, a)], ∀ y ∈ (p, { b with prev := some t }) :: l₂, x.1 ≠ y.1 :=
            fun x hx => List.forall_mem_cons.mpr (List.forall_mem_cons.mp (hdisj x hx))
          refine h.link ⟨rfl, ?_, rfl, hrest.frame fun y hy => ?_⟩ h'.nodup hdisj' rfl rfl
            ((hreads' t).trans (if_pos rfl)) fun x hx => ?_
          · rw [hreads', if_neg htp.symm, hreads, if_pos rfl]
          · exact hother y.1 (hdisj (t, a) (by simp) y (List.mem_cons_of_mem _ hy)).symm
              (hfront.not_mem y hy)
          · exact hother x.1 (h.not_mem x (by simpa using hx))
              (hdisj x (List.mem_append_left _ hx) (p, b) List.mem_cons_self)
        · exact hother q (fun he => hq (by simp [he])) fun he => hq (by simp [he])

end Nodes

end Workload.Paths
