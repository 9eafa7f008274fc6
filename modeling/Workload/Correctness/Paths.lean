import Workload.Lib.Trace
import Workload.Correctness.Marks

/-!
# `Correctness.Paths` — parsing and appending paths

The parser marks a node before the next one is there; an append clears all marks of the list it leaves and sets
them again. Both leave the marks of `markEach`. Memory may run out while a path is parsed: the components so far
are returned, or none of them.

* `stringToNode_run`, `appendPathNode_eq` — the two calls.
* **`path_marks_exact`** — a parse leaves the stack of its path, and every sequence of appends the marks that
  marking each component of its list once gives.
-/

namespace Workload.Paths

open Memory MarkedStack Trace

/-! ## Parsing -/

section Parse

variable {allocs : Allocs} {m : Heap StringNode} {head tail : Option NodePtr} {l : List (NodePtr × StringNode)}
  {base fuel k : Nat} {string : Text}

/-- The word in front of a path, and what is left behind its separator. -/
theorem word_cases (hne : string ≠ []) :
    let word := workloadGetWordSepAllocC false (some "/\\".toList) string
    components string = word.1 :: components word.2.tail ∧ word.2.tail.length < string.length := by
  intro word
  unfold components
  dsimp only
  generalize hsep : (fun c => "/\\".toList.contains c) = isSep
  have hword : word = (string.takeWhile (!isSep ·), string.dropWhile (!isSep ·)) := by
    rw [← hsep]
    exact List.span_eq_takeWhile_dropWhile _ _
  have hstring : word.1 ++ word.2 = string := by
    rw [hword]
    exact List.takeWhile_append_dropWhile
  have hfree : ∀ c ∈ word.1, isSep c = false := by
    rw [hword]
    intro c hc
    simpa using List.mem_takeWhile_imp hc
  have hname : word.1.splitOnP isSep = [word.1] := List.splitOnP_eq_singleton hfree
  cases hrest : word.2 with
  | nil =>
      -- the last component
      rw [hrest, List.append_nil] at hstring
      rw [hstring] at hname
      have hlast : ([string] : List Text).getLast? ≠ some [] := fun h => hne (Option.some.inj h)
      rw [hname, if_neg hlast, hstring, List.tail_nil, List.splitOnP_nil]
      exact ⟨rfl, List.length_pos_iff.mpr hne⟩
  | cons c rest =>
      have hc : isSep c = true := by
        have hhead := List.head?_dropWhile_not (!isSep ·) string
        rw [hword] at hrest
        rw [show string.dropWhile (!isSep ·) = c :: rest from hrest, List.head?_cons] at hhead
        simpa using hhead
      rw [hrest] at hstring
      have hlen : rest.length < string.length := by
        rw [← hstring, List.length_append, List.length_cons]
        omega
      refine ⟨?_, hlen⟩
      rw [List.tail_cons, ← hstring, List.splitOnP_append_cons _ _ hc, hname, List.singleton_append]
      -- whether an empty part is left out at the end is decided behind this separator
      obtain ⟨d, parts, hparts⟩ := List.exists_cons_of_ne_nil (List.splitOnP_ne_nil isSep rest)
      rw [hparts, List.getLast?_cons_cons, List.dropLast_cons_of_ne_nil (List.cons_ne_nil d parts)]
      split_ifs <;> rfl

/-- A new node at the end of the list. -/
theorem linkTail_eq (h : Nodes m head l) (htail : tail = (l.map Prod.fst).getLast?) (name : Text) :
    let node : StringNode := { prev := tail, next := none, ignore := false, string := some name }
    ∃ m' l', linkTail (m.alloc node).2 tail m.size = some m' ∧
      Nodes m' (if tail = none then some m.size else head) (l' ++ [(m.size, node)]) ∧
      l'.map Prod.fst = l.map Prod.fst ∧ l'.map entry = l.map entry ∧ m'.size = m.size + 1 ∧
      ∀ q, q ∉ l.map Prod.fst → q ≠ m.size → m'.read q = m.read q := by
  intro node
  have hreads : ∀ q, q ≠ m.size → (m.alloc node).2.read q = m.read q := fun q hq => by
    rw [Heap.read_alloc, if_neg hq]
  have hnew : (m.alloc node).2.read m.size = some node := by rw [Heap.read_alloc, if_pos rfl]
  have hfresh : ∀ x ∈ l, x.1 ≠ m.size := fun x hx => (Heap.lt_size_of_read (h.read x hx)).ne
  rcases List.eq_nil_or_concat' l with rfl | ⟨l₀, ⟨t, a⟩, rfl⟩
  · subst htail
    exact ⟨(m.alloc node).2, [], rfl, ⟨⟨rfl, hnew, rfl, rfl⟩, List.nodup_singleton _⟩, rfl, rfl,
      Heap.size_alloc _ _, fun q _ hq => hreads q hq⟩
  · have htail' : tail = some t := by
      rw [htail, List.map_append]
      exact List.getLast?_concat
    have ht : t ≠ m.size := hfresh (t, a) (by simp)
    have hta : (m.alloc node).2.read t = some a := (hreads t ht).trans h.pointers.1
    obtain ⟨m', hwrite, hsize, hreads'⟩ := Heap.write_eq hta (b := { a with next := some m.size })
    have hother : ∀ q, q ≠ t → q ≠ m.size → m'.read q = m.read q := by
      intro q hqt hq
      rw [hreads', if_neg hqt, hreads q hq]
    refine ⟨m', l₀ ++ [(t, { a with next := some m.size })], ?_, ?_, by simp, by simp [entry],
      hsize.trans (Heap.size_alloc _ _), fun q hq hqm => ?_⟩
    · rw [htail']
      simp only [linkTail, hta, hwrite, Option.bind_eq_bind, Option.bind_some]
    · rw [if_neg (by rw [htail']; exact nofun), List.append_assoc]
      refine h.link ⟨rfl, ?_, htail', rfl⟩ (List.nodup_singleton _) ?_ rfl rfl ((hreads' t).trans (if_pos rfl))
        fun x hx => ?_
      · rw [hreads', if_neg ht.symm, hnew]
      · intro x hx y hy
        rw [List.mem_singleton.mp hy]
        exact hfresh x hx
      · exact hother x.1 (h.not_mem x (by simpa using hx)) (hfresh x (List.mem_append_left _ hx))
    · exact hother q (fun he => hq (by simp [he])) hqm

/-- **One round of the parser**: the new node joins the list and is marked. -/
theorem parseNode_step (h : Nodes m head l) (htail : tail = (l.map Prod.fst).getLast?)
    (hmarks : l.map entry = markEach (strings l)) (name : Text) :
    let node : StringNode := { prev := tail, next := none, ignore := false, string := some name }
    ∃ m₁ m' l', linkTail (m.alloc node).2 tail m.size = some m₁ ∧
      workloadCheckIgnorePathNode m₁ m.size = some m' ∧ Nodes m' (if tail = none then some m.size else head) l' ∧
      l'.map Prod.fst = l.map Prod.fst ++ [m.size] ∧ strings l' = strings l ++ [some name] ∧
      l'.map entry = markEach (strings l') ∧ m'.size = m.size + 1 ∧
      ∀ q, q ∉ l.map Prod.fst ++ [m.size] → m'.read q = m.read q := by
  intro node
  obtain ⟨m₁, l₁, hlink, hnodes, hptrs, hentries, hsize, hother⟩ := linkTail_eq h htail name
  obtain ⟨m', l', hcheck, hnodes', hptrs', hmarks', hchanges⟩ := checkIgnore_step hnodes rfl
  rw [List.append_nil] at hnodes'
  rw [hptrs] at hptrs' hchanges
  rw [hentries] at hmarks'
  have hstrings : strings l' = strings l ++ [some name] := by
    rw [← map_fst_entry, hmarks', map_fst_markNode, map_fst_entry]
  refine ⟨m₁, m', l', hlink, hcheck, hnodes', hptrs', hstrings, ?_, hchanges.size.trans hsize, fun q hq => ?_⟩
  · rw [hmarks', hmarks, hstrings, markEach_concat]
  · have hq' := hq
    rw [List.mem_append, List.mem_singleton, not_or] at hq'
    exact (hchanges.other q hq).trans (hother q hq'.1 hq'.2)

/-- **The parser's loop** marks the components it reads. -/
theorem stringToNode_run (h : Nodes m head l) (htail : tail = (l.map Prod.fst).getLast?)
    (hmarks : l.map entry = markEach (strings l)) (hbase : ∀ x ∈ l, base ≤ x.1) (hsize : base ≤ m.size)
    (hfuel : string.length < fuel) :
    ∃ head' m' l', stringToNodeLoop allocs "/\\".toList true fuel k string head tail m = some (head', m') ∧
      Nodes m' head' l' ∧ l'.map entry = markEach (strings l') ∧
      strings l' <+: strings l ++ (components string).map some ∧
      ((∀ i, allocs.name i = true ∧ allocs.node i = true) →
        strings l' = strings l ++ (components string).map some) ∧
      (∀ x ∈ l', base ≤ x.1) ∧ ∀ q < base, m'.read q = m.read q := by
  induction fuel generalizing m head tail l k string with
  | zero => exact absurd hfuel (Nat.not_lt_zero _)
  | succ fuel ih =>
      rw [stringToNodeLoop]
      by_cases hempty : string = []
      · subst hempty
        rw [if_pos rfl, show components [] = [] from rfl, List.map_nil, List.append_nil]
        exact ⟨head, m, l, rfl, h, hmarks, List.prefix_rfl, fun _ => rfl, hbase, fun _ _ => rfl⟩
      · rw [if_neg hempty]
        obtain ⟨hcomponents, hlen⟩ := word_cases hempty
        generalize workloadGetWordSepAllocC false (some "/\\".toList) string = word at hcomponents hlen ⊢
        obtain ⟨name, rest⟩ := word
        dsimp only at hcomponents hlen ⊢
        by_cases hname : allocs.name k = true
        · rw [if_pos hname]
          by_cases hnode : allocs.node k = true
          · obtain ⟨m₁, m₂, l₂, hlink, hcheck, hnodes, hptrs, hstrings, hmarks₂, hgrown, hother⟩ :=
              parseNode_step h htail hmarks name
            have hbase₂ : ∀ p ∈ l.map Prod.fst ++ [m.size], base ≤ p := by
              intro p hp
              rcases List.mem_append.mp hp with hp | hp
              · obtain ⟨x, hx, rfl⟩ := List.mem_map.mp hp
                exact hbase x hx
              · exact (List.mem_singleton.mp hp).symm ▸ hsize
            have hassoc : strings l₂ ++ (components rest.tail).map some =
                strings l ++ (components string).map some := by
              rw [hstrings, hcomponents, List.append_assoc]
              rfl
            obtain ⟨head', m', l', hloop, hnodes', hmarks', hpre, hall, hbase', hother'⟩ :=
              ih (k := k + 1) hnodes (by rw [hptrs, List.getLast?_concat]) hmarks₂
                (fun x hx => hbase₂ x.1 (hptrs ▸ List.mem_map_of_mem hx)) (by omega)
                (by omega : rest.tail.length < fuel)
            rw [hassoc] at hpre hall
            refine ⟨head', m', l', ?_, hnodes', hmarks', hpre, hall, hbase', fun q hq => ?_⟩
            · rw [if_pos hnode]
              dsimp only [Heap.alloc] at hlink ⊢
              simp only [hlink, hcheck, Option.bind_eq_bind, Option.bind_some, if_true]
              exact hloop
            · exact (hother' q hq).trans (hother q fun hmem => absurd (hbase₂ q hmem) (Nat.not_le_of_lt hq))
          · -- no memory for the node: nothing is left
            obtain ⟨m', hfree, hchanges⟩ := freeStringNode_run h.segment h.nodup h.length_le
            refine ⟨none, m', [], ?_, .nil, rfl, List.nil_prefix, fun hall => absurd (hall k).2 hnode, nofun,
              fun q hq => hchanges.other q fun hmem => ?_⟩
            · rw [if_neg hnode]
              simp only [hfree, Option.bind_eq_bind, Option.bind_some]
            · obtain ⟨y, hy, rfl⟩ := List.mem_map.mp hmem
              exact absurd (hbase y hy) (Nat.not_le_of_lt hq)
        · -- no memory for the name: the components so far
          rw [if_neg hname]
          exact ⟨head, m, l, rfl, h, hmarks, List.prefix_append _ _, fun hall => absurd (hall k).1 hname, hbase,
            fun _ _ => rfl⟩

/-- What `workload_path_to_node` returns. -/
theorem pathToNode_eq (allocs : Allocs) (path : Text) (m : Heap StringNode) :
    ∃ head m' l, workloadPathToNode allocs (some path) m = some (head, m') ∧ Nodes m' head l ∧
      l.map entry = markEach (strings l) ∧ strings l <+: (components path).map some ∧
      ((∀ i, allocs.name i = true ∧ allocs.node i = true) → strings l = (components path).map some) ∧
      (∀ x ∈ l, m.size ≤ x.1) ∧ ∀ q < m.size, m'.read q = m.read q :=
  stringToNode_run .nil rfl rfl nofun (Nat.le_refl _) (Nat.lt_succ_self _)

end Parse

/-! ## Appends -/

/-- The components after an append. -/
def appended (override : Bool) (cs ds : List (Option Text)) : List (Option Text) :=
  if override = true ∧ ds.head? = some (some []) then ds else cs ++ ds

section Append

variable {m : Heap StringNode} {head node : Option NodePtr} {l₁ l₂ : List (NodePtr × StringNode)}

theorem startsAtRoot_eq (h : Nodes m node l₂) :
    startsAtRoot m node = some (decide ((strings l₂).head? = some (some []))) := by
  cases l₂ with
  | nil =>
      obtain rfl : node = none := h.head_eq
      rfl
  | cons y l₂ =>
      obtain ⟨p, b⟩ := y
      obtain rfl : node = some p := h.head_eq
      have hread := h.read (p, b) List.mem_cons_self
      have hiff : b.string = some [] ↔ (strings ((p, b) :: l₂)).head? = some (some []) := by
        rw [strings, List.map_cons, List.head?_cons, Option.some_inj]
      simp only [startsAtRoot, hread, Option.bind_eq_bind, Option.bind_some]
      exact congrArg some (decide_eq_decide.mpr hiff)

/-- What stands in front of the new nodes. -/
theorem overrideHead_eq (h : Nodes m head l₁) (h' : Nodes m node l₂) (hdisj : ∀ x ∈ l₁, ∀ y ∈ l₂, x.1 ≠ y.1)
    (override : Bool) :
    ∃ head' m' l, overrideHead m head node override = some (head', m') ∧ Nodes m' head' l ∧ Nodes m' node l₂ ∧
      l ⊆ l₁ ∧ strings (l ++ l₂) = appended override (strings l₁) (strings l₂) ∧
      Changes m m' (l₁.map Prod.fst) := by
  unfold overrideHead appended
  have hkeep : ∃ head' m' l, some (head, m) = some (head', m') ∧ Nodes m' head' l ∧ Nodes m' node l₂ ∧
      l ⊆ l₁ ∧ strings (l ++ l₂) = strings l₁ ++ strings l₂ ∧ Changes m m' (l₁.map Prod.fst) :=
    ⟨head, m, l₁, rfl, h, h', fun _ hx => hx, strings_append _ _, .refl m _⟩
  cases override with
  | false =>
      have hno : ¬(false = true ∧ (strings l₂).head? = some (some [])) := fun h => Bool.false_ne_true h.1
      rw [if_neg hno]
      exact hkeep
  | true =>
      rw [if_pos rfl, startsAtRoot_eq h', Option.bind_eq_bind, Option.bind_some]
      by_cases hroot : (strings l₂).head? = some (some [])
      · obtain ⟨m', hfree, hchanges⟩ := freeStringNode_run h.segment h.nodup h.length_le
        rw [if_pos (decide_eq_true hroot), hfree, if_pos ⟨rfl, hroot⟩]
        refine ⟨none, m', [], rfl, .nil, h'.frame fun y hy => hchanges.other _ ?_, List.nil_subset _, rfl,
          hchanges⟩
        intro hmem
        obtain ⟨x, hx, he⟩ := List.mem_map.mp hmem
        exact hdisj x hx y hy he
      · have hno : ¬decide ((strings l₂).head? = some (some [])) = true := by rwa [decide_eq_true_eq]
        rw [if_neg hno, if_neg fun h => hroot h.2]
        exact hkeep

/-- **One append** marks the components of the list it leaves. -/
theorem appendPathNode_eq (h : Nodes m head l₁) (h' : Nodes m node l₂) (hdisj : ∀ x ∈ l₁, ∀ y ∈ l₂, x.1 ≠ y.1)
    (override : Bool) :
    ∃ head' m' l, workloadAppendPathNode m head node override = some (head', m') ∧ Nodes m' head' l ∧
      strings l = appended override (strings l₁) (strings l₂) ∧ l.map entry = markEach (strings l) ∧
      l.map Prod.fst ⊆ (l₁ ++ l₂).map Prod.fst ∧ Changes m m' ((l₁ ++ l₂).map Prod.fst) := by
  obtain ⟨head₀, m₀, l₀, hover, hnodes₀, hnodes₀', hsub, hstrings₀, hchanges₀⟩ :=
    overrideHead_eq h h' hdisj override
  obtain ⟨head₁, m₁, l, hlink, hnodes₁, hptrs₁, hstrings₁, hchanges₁⟩ :=
    linkNode_eq hnodes₀ hnodes₀' fun x hx => hdisj x (hsub hx)
  obtain ⟨m₂, l', hclear, hnodes₂, hptrs₂, hstrings₂, hignore, hchanges₂⟩ :=
    clearIgnore_run (show Nodes m₁ head₁ ([] ++ l) from hnodes₁) hnodes₁.length_le
  obtain ⟨m₃, l'', hrestrip, hnodes₃, hptrs₃, hmarks, hchanges₃⟩ :=
    restrip_run (show Nodes m₂ head₁ ([] ++ l') from hnodes₂) rfl hignore hnodes₂.length_le
  rw [List.nil_append] at hptrs₃ hmarks hnodes₂
  -- neither loop changes a component
  have hstrings₃ : strings l'' = strings l' := by
    rw [← map_fst_entry, hmarks, map_fst_markEach]
  have hptrs : (l₀ ++ l₂).map Prod.fst ⊆ (l₁ ++ l₂).map Prod.fst := by
    refine List.map_subset _ (List.append_subset.mpr ⟨?_, List.subset_append_right _ _⟩)
    exact fun x hx => List.mem_append_left _ (hsub hx)
  rw [List.nil_append, hptrs₂, hptrs₁] at hchanges₃
  rw [hptrs₁] at hchanges₂
  refine ⟨head₁, m₃, l'', ?_, hnodes₃, ?_, by rw [hmarks, hstrings₃], ?_, ?_⟩
  · rw [← hnodes₁.head_eq] at hclear
    rw [← hnodes₂.head_eq] at hrestrip
    simp only [workloadAppendPathNode, workloadAppendStringNodeEx, hover, hlink, hclear, hrestrip,
      Option.bind_eq_bind, Option.bind_some, if_true]
  · rw [hstrings₃, hstrings₂, hstrings₁, hstrings₀]
  · rwa [hptrs₃, hptrs₂, hptrs₁]
  · have hfront : l₁.map Prod.fst ⊆ (l₁ ++ l₂).map Prod.fst := List.map_subset _ (List.subset_append_left _ _)
    exact (hchanges₀.mono hfront).trans ((hchanges₁.trans (hchanges₂.trans hchanges₃)).mono hptrs)

end Append

/-! ## Sequences of appends -/

/-- One call of `workload_append_path_node`: the heap it is made in, the list that is appended, `s_override`. -/
structure AppendCall where
  heap : Heap StringNode
  node : Option NodePtr
  list : List (NodePtr × StringNode)
  override : Bool

/-- The call, on the head the one before it returned. -/
def appendStep : Option (Option NodePtr × Heap StringNode) → AppendCall → Option (Option NodePtr × Heap StringNode)
  | none, _ => none
  | some (head, _), call => workloadAppendPathNode call.heap head call.node call.override

/-- Between the calls the list stays as it is, and what is appended is another list. -/
def AppendOk (s : Option (Option NodePtr × Heap StringNode)) (call : AppendCall) : Prop :=
  ∀ head m l, s = some (head, m) → Nodes m head l →
    (∀ x ∈ l, call.heap.read x.1 = m.read x.1) ∧ Nodes call.heap call.node call.list ∧
      ∀ x ∈ l, ∀ y ∈ call.list, x.1 ≠ y.1

/-- The components after some calls. -/
def appendedAll (calls : List AppendCall) (cs : List (Option Text)) : List (Option Text) :=
  calls.foldl (fun cs call => appended call.override cs (strings call.list)) cs

/-- The components without a mark. -/
def unignored (l : List (NodePtr × StringNode)) : List Text :=
  (l.filter fun x => !x.2.ignore).map fun x => workloadCheckString x.2.string

section Calls

variable {m : Heap StringNode} {head : Option NodePtr} {l : List (NodePtr × StringNode)}
  {call : AppendCall} {calls : List AppendCall}

theorem names_live (l : List (NodePtr × StringNode)) : names (live (l.map entry)) = unignored l := by
  unfold names live unignored
  rw [List.filter_map, List.map_map, List.map_map]
  rfl

theorem names_map_some (cs : List Text) : names (cs.map some) = cs := by
  unfold names
  rw [List.map_map]
  exact List.map_id cs

theorem appendStep_eq (h : Nodes m head l) (hok : AppendOk (some (head, m)) call) :
    ∃ head' m' l', appendStep (some (head, m)) call = some (head', m') ∧ Nodes m' head' l' ∧
      strings l' = appended call.override (strings l) (strings call.list) ∧
      l'.map entry = markEach (strings l') := by
  obtain ⟨hread, hlist, hdisj⟩ := hok head m l rfl h
  obtain ⟨head', m', l', hcall, hnodes, hstrings, hmarks, -, -⟩ :=
    appendPathNode_eq (h.frame hread) hlist hdisj call.override
  exact ⟨head', m', l', hcall, hnodes, hstrings, hmarks⟩

/-- The marks are right after every call, so after any number of them. -/
theorem appendStep_run (h : Nodes m head l) (hmarks : l.map entry = markEach (strings l))
    (hok : Along appendStep AppendOk (some (head, m)) calls) :
    ∃ head' m' l', exec appendStep (some (head, m)) calls = some (head', m') ∧ Nodes m' head' l' ∧
      strings l' = appendedAll calls (strings l) ∧ l'.map entry = markEach (strings l') := by
  induction calls generalizing m head l with
  | nil => exact ⟨head, m, l, rfl, h, rfl, hmarks⟩
  | cons call calls ih =>
      obtain ⟨hcall, hrest⟩ := hok
      obtain ⟨head₁, m₁, l₁, hstep, hnodes, hstrings, hmarks₁⟩ := appendStep_eq h hcall
      rw [hstep] at hrest
      obtain ⟨head', m', l', hexec, hnodes', hstrings', hmarks'⟩ := ih hnodes hmarks₁ hrest
      refine ⟨head', m', l', ?_, hnodes', ?_, hmarks'⟩
      · rw [exec_cons, hstep, hexec]
      · rw [hstrings', hstrings]
        rfl

/-- A parsed path can be appended to any list: its nodes are new, and those of the list stay as they are. -/
theorem appendOk_of_parse (allocs : Allocs) (path : Text) (override : Bool) (h : Nodes m head l) :
    ∃ node m' list, workloadPathToNode allocs (some path) m = some (node, m') ∧
      ((∀ i, allocs.name i = true ∧ allocs.node i = true) → strings list = (components path).map some) ∧
      AppendOk (some (head, m)) { heap := m', node := node, list := list, override := override } ∧
      ∃ head₁ m₁ l₁, appendStep (some (head, m)) { heap := m', node := node, list := list, override := override } =
        some (head₁, m₁) ∧ Nodes m₁ head₁ l₁ := by
  obtain ⟨node, m', list, hparse, hnodes, -, -, hall, hnew, hold⟩ := pathToNode_eq allocs path m
  have hok : AppendOk (some (head, m)) { heap := m', node := node, list := list, override := override } := by
    rintro head₀ m₀ l hs h
    obtain ⟨rfl, rfl⟩ := Prod.mk.inj (Option.some.inj hs)
    have hlt : ∀ x ∈ l, x.1 < m.size := fun x hx => Heap.lt_size_of_read (h.read x hx)
    exact ⟨fun x hx => hold x.1 (hlt x hx), hnodes, fun x hx y hy => ((hlt x hx).trans_le (hnew y hy)).ne⟩
  obtain ⟨head₁, m₁, l₁, hstep, hnodes₁, -, -⟩ := appendStep_eq h hok
  exact ⟨node, m', list, hparse, hall, hok, head₁, m₁, l₁, hstep, hnodes₁⟩

end Calls

/-- **The marks of a path.** A parse marks its components one after the other, and those without a mark are the
    stack of the path; a sequence of appends leaves the marks that marking each component once gives. -/
theorem path_marks_exact :
    (∀ (allocs : Allocs) (path : Text) (m : Heap StringNode), ∃ head m' l,
      workloadPathToNode allocs (some path) m = some (head, m') ∧ Nodes m' head l ∧
        l.map entry = markEach (strings l) ∧ unignored l = evalPath (names (strings l)) ∧
        names (strings l) <+: components path ∧
        ((∀ i, allocs.name i = true ∧ allocs.node i = true) → names (strings l) = components path)) ∧
    ∀ (m : Heap StringNode) (head : Option NodePtr) (l : List (NodePtr × StringNode)) (call : AppendCall)
      (calls : List AppendCall), Nodes m head l → Along appendStep AppendOk (some (head, m)) (call :: calls) →
      ∃ head' m' l', exec appendStep (some (head, m)) (call :: calls) = some (head', m') ∧ Nodes m' head' l' ∧
        strings l' = appendedAll (call :: calls) (strings l) ∧ l'.map entry = markEach (strings l') := by
  constructor
  · intro allocs path m
    obtain ⟨head, m', l, hparse, hnodes, hmarks, hpre, hall, -, -⟩ := pathToNode_eq allocs path m
    refine ⟨head, m', l, hparse, hnodes, hmarks, ?_, ?_, fun h => ?_⟩
    · rw [← names_live, hmarks, live_markEach]
    · have hnames := hpre.map workloadCheckString
      rwa [show ((components path).map some).map workloadCheckString = components path from names_map_some _]
        at hnames
    · rw [hall h, names_map_some]
  · rintro m head l call calls h ⟨hcall, hrest⟩
    -- the first call clears whatever marks the list had
    obtain ⟨head₁, m₁, l₁, hstep, hnodes, hstrings, hmarks⟩ := appendStep_eq h hcall
    rw [hstep] at hrest
    obtain ⟨head', m', l', hexec, hnodes', hstrings', hmarks'⟩ := appendStep_run hnodes hmarks hrest
    refine ⟨head', m', l', ?_, hnodes', ?_, hmarks'⟩
    · rw [exec_cons, hstep, hexec]
    · rw [hstrings', hstrings]
      rfl

/-- `/a/../b` is the root and `b`; and `../c` and `../d` appended to it leave the root and `d` without a mark. -/
theorem path_marks_small :
    (∃ head m' l,
      workloadPathToNode ⟨fun _ => true, fun _ => true⟩ (some "/a/../b".toList) ⟨[]⟩ = some (head, m') ∧
        Nodes m' head l ∧ unignored l = [[], "b".toList]) ∧
    ∃ calls : List AppendCall, calls.map (fun call => strings call.list) =
        ["/a/../b".toList, "../c".toList, "../d".toList].map (fun path => (components path).map some) ∧
      ∃ head' m' l', exec appendStep (some (none, ⟨[]⟩)) calls = some (head', m') ∧ Nodes m' head' l' ∧
        l'.map entry = [(some [], false), (some "a".toList, true), (some "..".toList, true), (some "b".toList, true),
          (some "..".toList, true), (some "c".toList, true), (some "..".toList, true), (some "d".toList, false)] := by
  have hallocs : ∀ i, (⟨fun _ => true, fun _ => true⟩ : Allocs).name i = true ∧
      (⟨fun _ => true, fun _ => true⟩ : Allocs).node i = true := fun _ => ⟨rfl, rfl⟩
  constructor
  · obtain ⟨head, m', l, hparse, hnodes, -, hstack, -, hall⟩ :=
      path_marks_exact.1 ⟨fun _ => true, fun _ => true⟩ "/a/../b".toList ⟨[]⟩
    refine ⟨head, m', l, hparse, hnodes, ?_⟩
    rw [hstack, hall hallocs]
    decide +kernel
  · -- each path is parsed behind the append of the one before it
    obtain ⟨n₁, h₁, list₁, -, hs₁, hok₁, head₁, m₁, l₁, hstep₁, hl₁⟩ :=
      appendOk_of_parse ⟨fun _ => true, fun _ => true⟩ "/a/../b".toList false
        (show Nodes ⟨[]⟩ none [] from .nil)
    obtain ⟨n₂, h₂, list₂, -, hs₂, hok₂, head₂, m₂, l₂, hstep₂, hl₂⟩ :=
      appendOk_of_parse ⟨fun _ => true, fun _ => true⟩ "../c".toList false hl₁
    obtain ⟨n₃, h₃, list₃, -, hs₃, hok₃, -⟩ :=
      appendOk_of_parse ⟨fun _ => true, fun _ => true⟩ "../d".toList false hl₂
    obtain ⟨head', m', l', hexec, hnodes, hstrings, hmarks⟩ :=
      path_marks_exact.2 ⟨[]⟩ none [] ⟨h₁, n₁, list₁, false⟩ [⟨h₂, n₂, list₂, false⟩, ⟨h₃, n₃, list₃, false⟩] .nil
        ⟨hok₁, by rw [hstep₁]; exact ⟨hok₂, by rw [hstep₂]; exact ⟨hok₃, trivial⟩⟩⟩
    have hlists : strings list₁ = _ ∧ strings list₂ = _ ∧ strings list₃ = _ :=
      ⟨hs₁ hallocs, hs₂ hallocs, hs₃ hallocs⟩
    refine ⟨_, ?_, head', m', l', hexec, hnodes, ?_⟩
    · simp only [List.map_cons, List.map_nil, hlists]
    · rw [hmarks, hstrings]
      simp only [appendedAll, List.foldl_cons, List.foldl_nil, hlists]
      decide +kernel

end Workload.Paths
