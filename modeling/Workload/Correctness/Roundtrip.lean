import Workload.Lib.Separators
import Workload.Correctness.Paths
import Workload.Correctness.Rendering

/-!
# `Correctness.Roundtrip` — a path rendered and parsed again

The writer turns an empty last name into one more separator and the reader drops a separator at the end of its
input, so the components of a rendered list are its names. The marks of a path list are those its names have when
they are parsed; a copy therefore has the marks of the list it was made of. A program keeps its lists in variables
(`PathVars`) and parses, appends, copies and frees them in any order.

* `components_rendered`, `copyPathNode_eq` — the names that come back, and the copy of a list.
* `Kept` — what holds of the variables of a program, and `pathStep_kept`, which says that every call keeps it.
* **`path_roundtrip_exact`** — parsing undoes rendering, and every list of every program is like its copy.
-/

namespace Workload.Paths

open Blocks Memory Separators Trace

/-! ## Names -/

/-- A name that no separator cuts. -/
def SeparatorFree (name : Text) : Prop := ∀ c ∈ name, isPathSep c = false

/-- The separators of a path are those of its base name. -/
theorem components_eq (path : Text) : components path =
    if (path.splitOnP isPathSep).getLast? = some [] then (path.splitOnP isPathSep).dropLast
    else path.splitOnP isPathSep := by
  have hlist : "/\\".toList = ['/', '\\'] := by decide
  have hsep : (fun c => "/\\".toList.contains c) = isPathSep := by
    funext c
    unfold isPathSep
    rw [hlist, List.contains_cons, List.contains_cons, List.contains_nil, Bool.or_false]
  unfold components
  rw [hsep]

/-- The components of a path are free of separators. -/
theorem components_free (path : Text) : ∀ name ∈ components path, SeparatorFree name := by
  have hparts : ∀ name ∈ path.splitOnP isPathSep, SeparatorFree name := splitOnP_free path
  rw [components_eq]
  split_ifs
  · exact fun name hname => hparts name (List.dropLast_subset _ hname)
  · exact hparts

/-- **The names come back.** -/
theorem components_rendered {names : List Text} (hne : names ≠ []) (hfree : ∀ name ∈ names, SeparatorFree name) :
    components (rendered "/".toList names) = names := by
  have hsep : isPathSep '/' = true := by decide
  have hparts : ("/".toList.intercalate names).splitOnP isPathSep = names := splitOnP_intercalate hsep hne hfree
  rw [components_eq, rendered_eq hne]
  by_cases hlast : names.getLast? = some []
  · -- the separator behind an empty last name is the one the reader drops
    have hcut : ("/".toList.intercalate names ++ "/".toList).splitOnP isPathSep = names ++ [[]] := by
      rw [show "/".toList = '/' :: [] from by decide, List.splitOnP_append_cons _ _ hsep, List.splitOnP_nil]
      exact congrArg (· ++ [[]]) hparts
    rw [if_pos hlast, hcut, List.getLast?_concat, if_pos rfl, List.dropLast_concat]
  · rw [if_neg hlast, List.append_nil, hparts, if_neg hlast]

/-! ## Copies -/

/-- A list as the path functions build it. -/
structure PathList (m : Heap StringNode) (head : Option NodePtr) (l : List (NodePtr × StringNode)) : Prop where
  nodes : Nodes m head l
  marks : l.map entry = markEach (strings l)
  named : ∀ string ∈ strings l, ∃ name, string = some name ∧ SeparatorFree name

section Copies

variable {m m' : Heap StringNode} {head : Option NodePtr} {l : List (NodePtr × StringNode)}
  {malloc : Nat → Bool} {allocs : Allocs}

theorem PathList.nil (m : Heap StringNode) : PathList m none [] := ⟨.nil, rfl, nofun⟩

theorem PathList.frame (h : PathList m head l) (hread : ∀ x ∈ l, m'.read x.1 = m.read x.1) : PathList m' head l :=
  ⟨h.nodes.frame hread, h.marks, h.named⟩

/-- Lists with the same names have the same marks. -/
theorem PathList.entries_eq {head' : Option NodePtr} {l' : List (NodePtr × StringNode)} (h : PathList m head l)
    (h' : PathList m' head' l') (hstrings : strings l' = strings l) : l'.map entry = l.map entry := by
  rw [h'.marks, h.marks, hstrings]

/-- The text of a list whose nodes have names, and what a parse of it returns. -/
theorem nodeToPath_eq {names : List Text} (h : Nodes m head l) (hstrings : strings l = names.map some)
    (hne : names ≠ []) (hfree : ∀ name ∈ names, SeparatorFree name) :
    ∃ (block : Block Char) (path : Text),
      workloadNodeToPath malloc m head false = some (if malloc block.length = true then some block else none) ∧
      getString block = some path ∧ components path = names := by
  have hwritten : written false l = l := rfl
  have hlist : l ≠ [] := by
    rintro rfl
    exact hne (List.map_eq_nil_iff.mp hstrings.symm)
  have hnames : writtenNames false l = names := by
    have hmap : writtenNames false l = (strings l).map workloadCheckString := by
      unfold writtenNames strings
      rw [hwritten, List.map_map]
      rfl
    rw [hmap, hstrings]
    exact names_map_some names
  obtain ⟨block, hcall, hblock⟩ := nodeToString_eq malloc h hlist (some "/".toList) false (by
    intro x hx
    have hmem : x.2.string ∈ names.map some := hstrings ▸ List.mem_map_of_mem (List.dropLast_subset _ hx)
    obtain ⟨name, -, hname⟩ := List.mem_map.mp hmem
    rw [← hname]
    exact nofun)
  refine ⟨block, rendered "/".toList names, hcall, ?_, components_rendered hne hfree⟩
  rw [hblock, if_neg (by rwa [hwritten]), listText, hnames]
  exact getString_of_terminated

/-- What a parse leaves: a list of new nodes. -/
theorem pathToNode_list (allocs : Allocs) (path : Option Text) (m : Heap StringNode) :
    ∃ head m' l, workloadPathToNode allocs path m = some (head, m') ∧ PathList m' head l ∧
      (∀ x ∈ l, m.size ≤ x.1) ∧ (∀ q < m.size, m'.read q = m.read q) ∧
      ((∀ i, allocs.name i = true ∧ allocs.node i = true) →
        strings l = (components (workloadCheckString path)).map some) := by
  cases path with
  | none => exact ⟨none, m, [], rfl, .nil m, nofun, fun _ _ => rfl, fun _ => rfl⟩
  | some path =>
      obtain ⟨head, m', l, hparse, hnodes, hmarks, hpre, hall, hnew, hold⟩ := pathToNode_eq allocs path m
      refine ⟨head, m', l, hparse, ⟨hnodes, hmarks, fun string hstring => ?_⟩, hnew, hold, hall⟩
      obtain ⟨name, hname, rfl⟩ := List.mem_map.mp (hpre.subset hstring)
      exact ⟨name, rfl, components_free path name hname⟩

/-- The names of a path list. -/
theorem PathList.strings_eq (h : PathList m head l) :
    strings l = (names (strings l)).map some ∧ ∀ name ∈ names (strings l), SeparatorFree name := by
  constructor
  · rw [names, List.map_map]
    refine (List.map_id (strings l)).symm.trans (List.map_congr_left fun string hstring => ?_)
    obtain ⟨name, rfl, -⟩ := h.named string hstring
    rfl
  · intro name hname
    obtain ⟨string, hstring, rfl⟩ := List.mem_map.mp hname
    obtain ⟨name, rfl, hfree⟩ := h.named string hstring
    exact hfree

/-- **A copy** is a list of new nodes, like the list it was made of when no allocation fails. -/
theorem copyPathNode_eq (h : PathList m head l) (malloc : Nat → Bool) (allocs : Allocs) :
    ∃ head' m' l', workloadCopyPathNode malloc allocs m head = some (head', m') ∧ PathList m' head' l' ∧
      (∀ x ∈ l', m.size ≤ x.1) ∧ (∀ q < m.size, m'.read q = m.read q) ∧
      ((∀ n, malloc n = true) → (∀ i, allocs.name i = true ∧ allocs.node i = true) →
        l'.map entry = l.map entry) := by
  obtain ⟨hstrings, hfree⟩ := h.strings_eq
  cases l with
  | nil =>
      obtain rfl : head = none := h.nodes.head_eq
      exact ⟨none, m, [], rfl, .nil m, nofun, fun _ _ => rfl, fun _ _ => rfl⟩
  | cons x l =>
      obtain ⟨block, path, hcall, hget, hcomponents⟩ : ∃ (block : Block Char) (path : Text),
          workloadNodeToPath malloc m head false = _ ∧ _ ∧ _ :=
        nodeToPath_eq h.nodes hstrings (List.cons_ne_nil _ _) hfree
      rw [workloadNodeToPath] at hcall
      unfold workloadCopyPathNode
      rw [hcall]
      cases hmalloc : malloc block.length with
      | false =>
          -- without memory for the text the copy is empty
          refine ⟨none, m, [], rfl, .nil m, nofun, fun _ _ => rfl, fun hall => ?_⟩
          exact absurd ((hall _).symm.trans hmalloc) (Bool.true_eq_false.mp ·)
      | true =>
          obtain ⟨head', m', l', hparse, hlist, hnew, hold, hall⟩ := pathToNode_list allocs (some path) m
          refine ⟨head', m', l', ?_, hlist, hnew, hold, fun _ hallocs => h.entries_eq hlist ?_⟩
          · simp only [if_true, Option.bind_eq_bind, Option.bind_some, hget]
            exact hparse
          · rw [hall hallocs, workloadCheckString_some, hcomponents, ← hstrings]

end Copies

/-! ## Programs -/

/-- The variables a program keeps its path lists in, and the nodes. -/
structure PathVars where
  heap : Heap StringNode
  list : Nat → Option NodePtr

/-- A call, by the numbers of the variables. -/
inductive PathOp where
  | parse (k : Nat) (allocs : Allocs) (path : Option Text)
  | append (i j : Nat) (override : Bool)
  | copy (i k : Nat) (malloc : Nat → Bool) (allocs : Allocs)
  | free (k : Nat)

/-- A list is not appended to itself. -/
def PathOp.Legal : PathOp → Prop
  | .append i j _ => i ≠ j
  | _ => True

/-- The call; what it returns is put into a variable, and the variable of an appended list is cleared. -/
def pathStep : Option PathVars → PathOp → Option PathVars
  | none, _ => none
  | some s, .parse k allocs path =>
      (workloadPathToNode allocs path s.heap).map fun r => ⟨r.2, Function.update s.list k r.1⟩
  | some s, .append i j override =>
      (workloadAppendPathNode s.heap (s.list i) (s.list j) override).map fun r =>
        ⟨r.2, Function.update (Function.update s.list j none) i r.1⟩
  | some s, .copy i k malloc allocs =>
      (workloadCopyPathNode malloc allocs s.heap (s.list i)).map fun r => ⟨r.2, Function.update s.list k r.1⟩
  | some s, .free k =>
      (workloadFreeStringNode s.heap.size (s.list k) s.heap).map fun m => ⟨m, Function.update s.list k none⟩

/-- Every variable holds a path list, and no two share a node. -/
structure Kept (s : PathVars) (lists : Nat → List (NodePtr × StringNode)) : Prop where
  list : ∀ k, PathList s.heap (s.list k) (lists k)
  apart : ∀ i j, i ≠ j → ∀ x ∈ lists i, ∀ y ∈ lists j, x.1 ≠ y.1

namespace Kept

variable {s : PathVars} {lists : Nat → List (NodePtr × StringNode)} {m' : Heap StringNode}
  {head : Option NodePtr} {l : List (NodePtr × StringNode)} {k : Nat}

/-- A list of nodes that no other variable has. -/
theorem store (h : Kept s lists) (hnew : PathList m' head l)
    (hold : ∀ i, i ≠ k → ∀ x ∈ lists i, m'.read x.1 = s.heap.read x.1)
    (hapart : ∀ i, i ≠ k → ∀ x ∈ lists i, ∀ y ∈ l, x.1 ≠ y.1) :
    Kept ⟨m', Function.update s.list k head⟩ (Function.update lists k l) := by
  constructor
  · intro i
    by_cases hi : i = k
    · subst hi
      simp only [Function.update_self]
      exact hnew
    · simp only [Function.update_of_ne hi]
      exact (h.list i).frame (hold i hi)
  · intro i j hij
    by_cases hi : i = k
    · subst hi
      rw [Function.update_self, Function.update_of_ne (Ne.symm hij)]
      exact fun x hx y hy => (hapart j (Ne.symm hij) y hy x hx).symm
    · rw [Function.update_of_ne hi]
      by_cases hj : j = k
      · subst hj
        rw [Function.update_self]
        exact hapart i hi
      · rw [Function.update_of_ne hj]
        exact h.apart i j hij

/-- A list of new nodes. -/
theorem storeNew (h : Kept s lists) (hlist : PathList m' head l) (hnew : ∀ x ∈ l, s.heap.size ≤ x.1)
    (hold : ∀ q < s.heap.size, m'.read q = s.heap.read q) (k : Nat) :
    Kept ⟨m', Function.update s.list k head⟩ (Function.update lists k l) := by
  have hlt : ∀ i, ∀ x ∈ lists i, x.1 < s.heap.size := fun i x hx =>
    Heap.lt_size_of_read ((h.list i).nodes.read x hx)
  exact h.store hlist (fun i _ x hx => hold x.1 (hlt i x hx))
    fun i _ x hx y hy => ((hlt i x hx).trans_le (hnew y hy)).ne

/-- A variable is given up. -/
theorem clear (h : Kept s lists) (k : Nat) :
    Kept ⟨s.heap, Function.update s.list k none⟩ (Function.update lists k []) :=
  h.store (.nil _) (fun _ _ _ _ => rfl) fun _ _ _ _ => nofun

end Kept

/-- **Every call keeps the variables.** -/
theorem pathStep_kept {s : PathVars} {lists : Nat → List (NodePtr × StringNode)} (h : Kept s lists) {op : PathOp}
    (hop : op.Legal) : ∃ s' lists', pathStep (some s) op = some s' ∧ Kept s' lists' := by
  cases op with
  | parse k allocs path =>
      obtain ⟨head, m', l, hparse, hlist, hnew, hold, -⟩ := pathToNode_list allocs path s.heap
      exact ⟨_, _, by rw [pathStep, hparse, Option.map_some], h.storeNew hlist hnew hold k⟩
  | append i j override =>
      obtain ⟨head, m', l, hcall, hnodes, hstrings, hmarks, hptrs, hchanges⟩ :=
        appendPathNode_eq (h.list i).nodes (h.list j).nodes (h.apart i j hop) override
      have hnamed : ∀ string ∈ strings l, ∃ name, string = some name ∧ SeparatorFree name := by
        rw [hstrings, appended]
        split_ifs
        · exact (h.list j).named
        · exact List.forall_mem_append.mpr ⟨(h.list i).named, (h.list j).named⟩
      -- the nodes of the other variables are in neither list
      have hout : ∀ k, k ≠ i → ∀ x ∈ Function.update lists j [] k, x.1 ∉ (lists i ++ lists j).map Prod.fst := by
        intro k hk x hx hmem
        by_cases hkj : k = j
        · rw [hkj, Function.update_self] at hx
          exact absurd hx List.not_mem_nil
        · rw [Function.update_of_ne hkj] at hx
          obtain ⟨y, hy, hxy⟩ := List.mem_map.mp hmem
          rcases List.mem_append.mp hy with hy | hy
          · exact h.apart k i hk x hx y hy hxy.symm
          · exact h.apart k j hkj x hx y hy hxy.symm
      refine ⟨_, _, by rw [pathStep, hcall, Option.map_some], (h.clear j).store ⟨hnodes, hmarks, hnamed⟩
        (fun k hk x hx => hchanges.other x.1 (hout k hk x hx)) fun k hk x hx y hy hxy => ?_⟩
      exact hout k hk x hx (hxy ▸ hptrs (List.mem_map_of_mem hy))
  | copy i k malloc allocs =>
      obtain ⟨head, m', l, hcall, hlist, hnew, hold, -⟩ := copyPathNode_eq (h.list i) malloc allocs
      exact ⟨_, _, by rw [pathStep, hcall, Option.map_some], h.storeNew hlist hnew hold k⟩
  | free k =>
      -- the freed nodes are those of this variable only
      obtain ⟨m', hfree, hchanges⟩ :=
        freeStringNode_run (h.list k).nodes.segment (h.list k).nodes.nodup (h.list k).nodes.length_le
      refine ⟨_, _, by rw [pathStep, hfree, Option.map_some], h.store (.nil m') (fun i hi x hx => ?_) nofun⟩
      refine hchanges.other x.1 fun hmem => ?_
      obtain ⟨y, hy, hxy⟩ := List.mem_map.mp hmem
      exact h.apart i k hi x hx y hy hxy.symm

/-- The variables of a run. -/
theorem pathStep_run {s : PathVars} {lists : Nat → List (NodePtr × StringNode)} (h : Kept s lists)
    {ops : List PathOp} (hops : ∀ op ∈ ops, op.Legal) :
    ∃ s' lists', exec pathStep (some s) ops = some s' ∧ Kept s' lists' := by
  induction ops generalizing s lists with
  | nil => exact ⟨s, lists, rfl, h⟩
  | cons op ops ih =>
      obtain ⟨hop, hrest⟩ := List.forall_mem_cons.mp hops
      obtain ⟨s₁, lists₁, hstep, h₁⟩ := pathStep_kept h hop
      rw [exec_cons, hstep]
      exact ih h₁ hrest

/-- **Rendering and parsing.** The names of a list come back when its text is parsed. Every list a program gets by
    parsing, appending and copying is like its copy, the marks included, and stays as it is. -/
theorem path_roundtrip_exact (malloc : Nat → Bool) (allocs : Allocs) (hmalloc : ∀ n, malloc n = true)
    (hallocs : ∀ i, allocs.name i = true ∧ allocs.node i = true) :
    (∀ (m : Heap StringNode) (head : Option NodePtr) (l : List (NodePtr × StringNode)) (names : List Text),
      Nodes m head l → strings l = names.map some → names ≠ [] → (∀ name ∈ names, SeparatorFree name) →
      ∃ block path head' m' l', workloadNodeToPath malloc m head false = some (some block) ∧
        getString block = some path ∧ workloadPathToNode allocs (some path) m = some (head', m') ∧
        Nodes m' head' l' ∧ strings l' = names.map some) ∧
    ∀ (m : Heap StringNode) (ops : List PathOp), (∀ op ∈ ops, op.Legal) →
      ∃ s, exec pathStep (some ⟨m, fun _ => none⟩) ops = some s ∧ ∀ k, ∃ l head' m' l',
        Nodes s.heap (s.list k) l ∧ workloadCopyPathNode malloc allocs s.heap (s.list k) = some (head', m') ∧
        Nodes m' head' l' ∧ l'.map entry = l.map entry ∧ Nodes m' (s.list k) l := by
  constructor
  · intro m head l names hnodes hstrings hne hfree
    obtain ⟨block, path, hcall, hget, hcomponents⟩ := nodeToPath_eq hnodes hstrings hne hfree
    obtain ⟨head', m', l', hparse, hlist, -, -, hall⟩ := pathToNode_list allocs (some path) m
    refine ⟨block, path, head', m', l', ?_, hget, hparse, hlist.nodes, ?_⟩
    · rw [hcall, if_pos (hmalloc _)]
    · rw [hall hallocs, workloadCheckString_some, hcomponents]
  · intro m ops hops
    have hstart : Kept ⟨m, fun _ => none⟩ fun _ => [] := ⟨fun _ => .nil m, fun _ _ _ => nofun⟩
    obtain ⟨s, lists, hrun, h⟩ := pathStep_run hstart hops
    refine ⟨s, hrun, fun k => ?_⟩
    obtain ⟨head', m', l', hcopy, hlist, hnew, hold, hall⟩ := copyPathNode_eq (h.list k) malloc allocs
    have hnodes := (h.list k).nodes
    exact ⟨lists k, head', m', l', hnodes, hcopy, hlist.nodes, hall hmalloc hallocs,
      hnodes.frame fun x hx => hold x.1 (Heap.lt_size_of_read (hnodes.read x hx))⟩

/-- The list of `/a/b` and a program that appends `b/..` to `/a/`. -/
theorem path_roundtrip_small :
    (∃ block path head' m' l',
      workloadNodeToPath (fun _ => true) ⟨smallNodes.map fun x => some x.2⟩ (some 0) false = some (some block) ∧
      getString block = some path ∧
      workloadPathToNode ⟨fun _ => true, fun _ => true⟩ (some path) ⟨smallNodes.map fun x => some x.2⟩ =
        some (head', m') ∧
      Nodes m' head' l' ∧ strings l' = [some [], some "a".toList, some "b".toList]) ∧
    ∃ s, exec pathStep (some ⟨⟨[]⟩, fun _ => none⟩)
        [.parse 0 ⟨fun _ => true, fun _ => true⟩ (some "/a/".toList),
          .parse 1 ⟨fun _ => true, fun _ => true⟩ (some "b/..".toList), .append 0 1 false] = some s ∧
      ∃ l head' m' l', Nodes s.heap (s.list 0) l ∧
        workloadCopyPathNode (fun _ => true) ⟨fun _ => true, fun _ => true⟩ s.heap (s.list 0) = some (head', m') ∧
        Nodes m' head' l' ∧ l'.map entry = l.map entry := by
  obtain ⟨hparse, hcopy⟩ :=
    path_roundtrip_exact (fun _ => true) ⟨fun _ => true, fun _ => true⟩ (fun _ => rfl) fun _ => ⟨rfl, rfl⟩
  constructor
  · have hnodes : Nodes ⟨smallNodes.map fun x => some x.2⟩ (some 0) smallNodes :=
      ⟨⟨rfl, rfl, rfl, rfl, rfl, rfl, rfl, rfl, rfl, rfl⟩, by decide⟩
    have hfree : ∀ name ∈ [[], "a".toList, "b".toList], SeparatorFree name :=
      List.forall_mem_cons.mpr ⟨nofun, List.forall_mem_cons.mpr ⟨List.forall_mem_singleton.mpr (by decide),
        List.forall_mem_singleton.mpr (List.forall_mem_singleton.mpr (by decide))⟩⟩
    exact hparse _ _ _ _ hnodes rfl (List.cons_ne_nil _ _) hfree
  · obtain ⟨s, hrun, hlists⟩ := hcopy ⟨[]⟩
      [.parse 0 ⟨fun _ => true, fun _ => true⟩ (some "/a/".toList),
        .parse 1 ⟨fun _ => true, fun _ => true⟩ (some "b/..".toList), .append 0 1 false]
      (List.forall_mem_cons.mpr ⟨trivial, List.forall_mem_cons.mpr ⟨trivial,
        List.forall_mem_singleton.mpr Nat.zero_ne_one⟩⟩)
    obtain ⟨l, head', m', l', hnodes, hcall, hnodes', hentries, -⟩ := hlists 0
    exact ⟨s, hrun, l, head', m', l', hnodes, hcall, hnodes', hentries⟩

end Workload.Paths
