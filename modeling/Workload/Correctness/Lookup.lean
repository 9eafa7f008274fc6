import Workload.Lib.Separators
import Workload.Correctness.Roundtrip
import Workload.Model.Config
import Workload.Model.Lookup

/-!
# `Correctness.Lookup` — the element at a path

`workload_get_xml_node` is meant to find the element the non-empty components of a path lead to (`elementAt`). It
stores what it found when the node of the component is the last one of the path, so an empty component behind it
makes it return NULL: a path that ends in two separators, or is a single one, finds nothing.

* `xmlNodeLoop_eq` — the loop, from any component on.
* `words_redundant` — paths with the same non-empty components.
* **`xml_lookup_exact`** — which paths find their element, and which two paths find the same.
* `configNode_eq` — the paths of the configuration do.
-/

namespace Workload

open Memory Paths Separators

/-! ## The element at a path -/

/-- `->child`. -/
def childLevel : Node → Node
  | [] => []
  | x :: _ => x.children

/-- From the level `root` the first element of each name, in the children of the one before it. -/
def elementAt : Node → List Text → Node
  | root, [] => root
  | root, [name] => seekNode name root
  | root, name :: names => elementAt (childLevel (seekNode name root)) names

/-- The path ends in two separators, or is a single one. -/
def EndsEmpty (path : Text) : Prop :=
  path ≠ [] ∧ (∀ c ∈ path.getLast?, isPathSep c = true) ∧ ∀ c ∈ path.dropLast.getLast?, isPathSep c = true

theorem elementAt_cons {names : List Text} (hne : names ≠ []) (root : Node) (name : Text) :
    elementAt root (name :: names) = elementAt (childLevel (seekNode name root)) names := by
  obtain ⟨d, names, rfl⟩ := List.exists_cons_of_ne_nil hne
  rfl

/-- On an empty level there is nothing. -/
theorem elementAt_nil (names : List Text) : elementAt [] names = [] := by
  induction names with
  | nil => rfl
  | cons name names ih =>
      cases names with
      | nil => rfl
      | cons d names => exact ih

/-! ## The loop -/

/-- The components that are not passed over. -/
def nonEmpty (names : List Text) : List Text := names.filter (!·.isEmpty)

/-- What the loop finds: nothing when the last component is empty. -/
def foundNode (root : Node) (names : List Text) : Node :=
  if names.getLast?.getD [] = [] then [] else elementAt root (nonEmpty names)

section Loop

variable {root : Node} {name : Text} {names : List Text}

theorem getLast_cons (hne : names ≠ []) : (name :: names).getLast?.getD [] = names.getLast?.getD [] := by
  obtain ⟨d, names, rfl⟩ := List.exists_cons_of_ne_nil hne
  rw [List.getLast?_cons_cons]

theorem nonEmpty_cons (hname : name ≠ []) : nonEmpty (name :: names) = name :: nonEmpty names := by
  refine List.filter_cons_of_pos ?_
  rwa [Bool.not_eq_true', List.isEmpty_eq_false_iff]

theorem nonEmpty_ne_nil (hlast : names.getLast?.getD [] ≠ []) : nonEmpty names ≠ [] := by
  intro hnil
  cases hget : names.getLast? with
  | none => exact hlast (by rw [hget]; rfl)
  | some name =>
      rw [hget, Option.getD_some] at hlast
      have hempty := List.filter_eq_nil_iff.mp hnil name (List.mem_of_getLast? hget)
      rw [Bool.not_eq_true', List.isEmpty_eq_false_iff, not_not] at hempty
      exact hlast hempty

theorem foundNode_nil (names : List Text) : foundNode [] names = [] := by
  unfold foundNode
  rw [elementAt_nil, ite_self]

/-- An empty component is passed over. -/
theorem foundNode_cons_empty : foundNode root ([] :: names) = foundNode root names := by
  by_cases hne : names = []
  · rw [hne]
    rfl
  · unfold foundNode
    rw [getLast_cons hne]
    rfl

theorem foundNode_singleton (hname : name ≠ []) : foundNode root [name] = seekNode name root := by
  unfold foundNode
  rw [List.getLast?_singleton, Option.getD_some, if_neg hname, nonEmpty_cons hname]
  rfl

/-- A component leads to the children of the first element with that name. -/
theorem foundNode_cons (hname : name ≠ []) (hne : names ≠ []) :
    foundNode root (name :: names) = foundNode (childLevel (seekNode name root)) names := by
  unfold foundNode
  rw [getLast_cons hne, nonEmpty_cons hname]
  split_ifs with hlast
  · rfl
  · exact elementAt_cons (nonEmpty_ne_nil hlast) root name

theorem xmlNodeLoop_nil (m : Heap StringNode) (n : Nat) (head : Option NodePtr) (result : Node) :
    xmlNodeLoop m n [] head result = some result := by
  cases n <;> rfl

/-- **The loop** from any component on. -/
theorem xmlNodeLoop_eq {m : Heap StringNode} {before head : Option NodePtr} {l : List (NodePtr × StringNode)}
    {n : Nat} (h : NodesFrom m before head l) (hn : l.length ≤ n) (root : Node) :
    xmlNodeLoop m n root head [] = some (foundNode root (Paths.names (strings l))) := by
  induction l generalizing before head n root with
  | nil =>
      obtain rfl : head = none := h
      cases root <;> cases n <;> rfl
  | cons y l ih =>
      obtain ⟨rfl, hread, -, hrest⟩ := h
      rw [List.length_cons] at hn
      obtain ⟨n, rfl⟩ := Nat.exists_eq_add_one_of_ne_zero (by omega : n ≠ 0)
      cases root with
      | nil => rw [foundNode_nil, xmlNodeLoop_nil]
      | cons x rest =>
          have hnames : Paths.names (strings (y :: l)) =
              workloadCheckString y.2.string :: Paths.names (strings l) := rfl
          rw [xmlNodeLoop, hread, Option.bind_eq_bind, Option.bind_some, hnames]
          by_cases hname : workloadCheckString y.2.string = []
          · -- nothing is stored for an empty component, also when it is the last one
            simp only [hname, if_true]
            rw [foundNode_cons_empty]
            exact ih hrest (by omega) _
          · simp only [hname, if_false]
            cases l with
            | nil =>
                -- the last node: what is found is the result
                have hnext : y.2.next = none := hrest
                rw [show Paths.names (strings []) = [] from rfl, foundNode_singleton hname, hnext]
                cases seekNode (workloadCheckString y.2.string) (x :: rest) with
                | nil => rfl
                | cons this siblings => cases hlevel : this.children <;> cases n <;> simp [hlevel, xmlNodeLoop]
            | cons z l =>
                -- more nodes behind it: the loop goes on in the children, or ends where no element has the name
                have hnext : y.2.next ≠ none := by
                  rw [hrest.1]
                  exact nofun
                rw [foundNode_cons hname (show Paths.names (strings (z :: l)) ≠ [] from List.cons_ne_nil _ _)]
                cases seekNode (workloadCheckString y.2.string) (x :: rest) with
                | nil => exact congrArg some (foundNode_nil _).symm
                | cons this siblings =>
                    simp only [if_neg hnext]
                    exact ih hrest (by omega) this.children

end Loop

/-! ## The call -/

section Call

variable {path : Text}

/-- The components that are not empty are the words of the path. -/
theorem nonEmpty_components (path : Text) : nonEmpty (components path) = words isPathSep path := by
  unfold nonEmpty words
  rw [components_eq]
  split_ifs with hlast
  · obtain ⟨parts, hparts⟩ := List.getLast?_eq_some_iff.mp hlast
    rw [hparts, List.dropLast_concat, List.filter_append]
    exact (List.append_nil _).symm
  · rfl

/-- The last component is empty exactly where the path ends in two separators or is one. -/
theorem components_last_iff (hne : path ≠ []) : (components path).getLast?.getD [] = [] ↔ EndsEmpty path := by
  obtain ⟨front, c, rfl⟩ := (List.eq_nil_or_concat' path).resolve_left hne
  unfold EndsEmpty
  rw [components_eq, List.dropLast_concat]
  split_ifs with hlast
  · -- the part behind the separator at the end is left out
    have hc := (getLast?_splitOnP_eq_nil _).mp hlast
    have hparts : (front ++ [c]).splitOnP isPathSep = front.splitOnP isPathSep ++ [[]] :=
      List.splitOnP_append_cons front [] (hc c List.getLast?_concat)
    rw [hparts, List.dropLast_concat, ← getLast?_splitOnP_eq_nil front, getLast?_splitOnP, Option.getD_some,
      Option.some_inj]
    exact ⟨fun hfront => ⟨List.concat_ne_nil _ _, hc, hfront⟩, fun h => h.2.2⟩
  · refine iff_of_false (fun hempty => hlast ?_) fun h => hlast ((getLast?_splitOnP_eq_nil _).mpr h.2.1)
    rw [getLast?_splitOnP, Option.getD_some] at hempty
    rw [getLast?_splitOnP, hempty]

/-- What `workload_get_xml_node` returns. -/
theorem getXmlNode_found (allocs : Allocs) (hallocs : ∀ i, allocs.name i = true ∧ allocs.node i = true)
    (root : Node) (path : Text) (m : Heap StringNode) :
    ∃ m', workloadGetXmlNode allocs (some root) (some path) m =
        some (if path = [] then root else foundNode root (components path), m') ∧
      ∀ q < m.size, m'.read q = m.read q := by
  obtain ⟨head, m₁, l, hparse, hlist, hnew, hold, hall⟩ := pathToNode_list allocs (some path) m
  have hnames : Paths.names (strings l) = components path := by
    rw [hall hallocs]
    exact names_map_some _
  unfold workloadGetXmlNode
  simp only [hparse, Option.bind_eq_bind, Option.bind_some]
  by_cases hpath : path = []
  · -- only the path without a character has no node
    have hl : l = [] := by
      rw [hpath] at hnames
      exact List.map_eq_nil_iff.mp (List.map_eq_nil_iff.mp hnames)
    have hhead : head = none := by
      rw [hlist.nodes.head_eq, hl]
      rfl
    rw [if_pos hhead, if_pos hpath]
    exact ⟨m₁, rfl, hold⟩
  · have hhead : ¬head = none := by
      rw [hlist.nodes.head_eq]
      intro hnone
      have hl : l = [] := List.map_eq_nil_iff.mp (List.head?_eq_none_iff.mp hnone)
      rw [(word_cases hpath).1, hl] at hnames
      exact absurd hnames.symm (List.cons_ne_nil _ _)
    have hloop := xmlNodeLoop_eq hlist.nodes.segment hlist.nodes.length_le root
    obtain ⟨m', hfree, hchanges⟩ :=
      freeStringNode_run hlist.nodes.segment hlist.nodes.nodup hlist.nodes.length_le
    rw [if_neg hhead, if_neg hpath, ← hnames]
    refine ⟨m', by simp only [hloop, hfree, Option.bind_some], fun q hq => ?_⟩
    refine (hchanges.other q fun hmem => ?_).trans (hold q hq)
    obtain ⟨x, hx, rfl⟩ := List.mem_map.mp hmem
    exact absurd (hnew x hx) (Nat.not_le_of_lt hq)

/-- What a path finds. -/
def found (root : Node) (path : Text) : Node :=
  if path = [] then root else foundNode root (components path)

theorem found_of_endsEmpty {root : Node} (h : EndsEmpty path) : found root path = [] := by
  unfold found foundNode
  rw [if_neg h.1, if_pos ((components_last_iff h.1).mpr h)]

theorem found_of_not_endsEmpty {root : Node} (h : ¬EndsEmpty path) :
    found root path = elementAt root (words isPathSep path) := by
  unfold found foundNode
  by_cases hpath : path = []
  · rw [if_pos hpath, hpath]
    rfl
  · rw [if_neg hpath, if_neg fun hempty => h ((components_last_iff hpath).mp hempty), nonEmpty_components]

/-- Separators that do not matter to the components: a second one, one in front, one at the end. -/
theorem words_redundant {s t : Char} (hs : isPathSep s = true) (ht : isPathSep t = true) (front back : Text) :
    words isPathSep (front ++ s :: t :: back) = words isPathSep (front ++ s :: back) ∧
      words isPathSep (s :: path) = words isPathSep path ∧
      words isPathSep (path ++ [s]) = words isPathSep path := by
  refine ⟨?_, words_cons hs, words_concat hs⟩
  rw [words_append_cons hs, words_append_cons hs, words_cons ht]

/-- **The lookup of a path.** It finds the element its non-empty components lead to exactly when the path does not
    end in an empty component, or there is no such element. Two paths with the same non-empty components find the
    same exactly when both end so, or neither does, or there is no such element. -/
theorem xml_lookup_exact (allocs : Allocs) (hallocs : ∀ i, allocs.name i = true ∧ allocs.node i = true)
    (root : Node) :
    ∃ lookup : Text → Node,
      (∀ path m, ∃ m', workloadGetXmlNode allocs (some root) (some path) m = some (lookup path, m') ∧
        ∀ q < m.size, m'.read q = m.read q) ∧
      (∀ path, lookup path = elementAt root (words isPathSep path) ↔
        ¬EndsEmpty path ∨ elementAt root (words isPathSep path) = []) ∧
      ∀ path path', words isPathSep path = words isPathSep path' →
        (lookup path = lookup path' ↔
          (EndsEmpty path ↔ EndsEmpty path') ∨ elementAt root (words isPathSep path) = []) := by
  refine ⟨found root, getXmlNode_found allocs hallocs root, fun path => ?_, fun path path' hwords => ?_⟩
  · by_cases hends : EndsEmpty path
    · rw [found_of_endsEmpty hends, or_iff_right (not_not.mpr hends), eq_comm]
    · exact iff_of_true (found_of_not_endsEmpty hends) (Or.inl hends)
  · by_cases hends : EndsEmpty path <;> by_cases hends' : EndsEmpty path'
    · rw [found_of_endsEmpty hends, found_of_endsEmpty hends']
      exact iff_of_true rfl (Or.inl (iff_of_true hends hends'))
    · rw [found_of_endsEmpty hends, found_of_not_endsEmpty hends', ← hwords, eq_comm]
      exact (or_iff_right fun h => hends' (h.mp hends)).symm
    · rw [found_of_not_endsEmpty hends, found_of_endsEmpty hends']
      exact (or_iff_right fun h => hends (h.mpr hends')).symm
    · rw [found_of_not_endsEmpty hends, found_of_not_endsEmpty hends', hwords]
      exact iff_of_true rfl (Or.inl (iff_of_false hends hends'))

/-- A document with one element, looked up with a separator at the end of the path. -/
theorem xml_lookup_small : ∃ m', workloadGetXmlNode ⟨fun _ => true, fun _ => true⟩
    (some [.element "a".toList [] [] []]) (some "a/".toList) ⟨[]⟩ = some ([.element "a".toList [] [] []], m') := by
  obtain ⟨lookup, hcall, hexact, -⟩ := xml_lookup_exact ⟨fun _ => true, fun _ => true⟩ (fun _ => ⟨rfl, rfl⟩)
    [.element "a".toList [] [] []]
  have hends : ¬EndsEmpty "a/".toList := fun h => absurd (h.2.2 'a' (by decide)) (by decide)
  obtain ⟨m', hm', -⟩ := hcall "a/".toList ⟨[]⟩
  have helement : lookup "a/".toList = [.element "a".toList [] [] []] := ((hexact _).mpr (Or.inl hends)).trans rfl
  exact ⟨m', helement ▸ hm'⟩

/-- Behind `a//` the element `a` is not found, and behind `/` not even the root. -/
theorem xml_lookup_lost :
    (workloadGetXmlNode ⟨fun _ => true, fun _ => true⟩ (some [.element "a".toList [] [] []])
        (some "a//".toList) ⟨[]⟩).map Prod.fst = some [] ∧
      (workloadGetXmlNode ⟨fun _ => true, fun _ => true⟩ (some [.element "a".toList [] [] []])
        (some "a".toList) ⟨[]⟩).map Prod.fst = some [.element "a".toList [] [] []] ∧
      words isPathSep "a//".toList = words isPathSep "a".toList ∧
      elementAt [.element "a".toList [] [] []] (words isPathSep "a//".toList) = [.element "a".toList [] [] []] ∧
      (workloadGetXmlNode ⟨fun _ => true, fun _ => true⟩ (some [.element "a".toList [] [] []])
        (some "/".toList) ⟨[]⟩).map Prod.fst = some [] ∧ words isPathSep "/".toList = [] :=
  ⟨rfl, rfl, rfl, rfl, rfl, rfl⟩

end Call

/-! ## The paths of the configuration -/

theorem foundNode_eq_getXmlNode {names : List Text} (hnames : ∀ name ∈ names, name ≠ []) (root : Node) :
    foundNode root names = getXmlNode names root := by
  induction names generalizing root with
  | nil => rfl
  | cons name names ih =>
      obtain ⟨hname, hrest⟩ := List.forall_mem_cons.mp hnames
      cases names with
      | nil => exact foundNode_singleton hname
      | cons d names =>
          rw [foundNode_cons hname (List.cons_ne_nil d names)]
          unfold getXmlNode
          cases seekNode name root with
          | nil => exact foundNode_nil _
          | cons this siblings => exact ih hrest this.children

/-- **A path of the configuration** finds the node the loaders go on from. -/
theorem configNode_eq (allocs : Allocs) (hallocs : ∀ i, allocs.name i = true ∧ allocs.node i = true)
    (doc : Document) {path : List Text} (hpath : ∀ name ∈ path, name ≠ [] ∧ SeparatorFree name)
    (m : Heap StringNode) :
    ∃ m', workloadGetXmlNode allocs (some [doc.root])
      (some (rendered "/".toList ([] :: "workload".toList :: "config".toList :: path))) m =
        some (configNode doc path, m') := by
  have hfree : ∀ {name : Text}, (name.all (!isPathSep ·)) = true → SeparatorFree name := by
    intro name hall c hc
    simpa using List.all_eq_true.mp hall c hc
  have hnames : ∀ name ∈ "workload".toList :: "config".toList :: path, name ≠ [] ∧ SeparatorFree name :=
    List.forall_mem_cons.mpr ⟨⟨by decide, hfree (by decide)⟩,
      List.forall_mem_cons.mpr ⟨⟨by decide, hfree (by decide)⟩, hpath⟩⟩
  have hcomponents := components_rendered (List.cons_ne_nil [] ("workload".toList :: "config".toList :: path))
    (List.forall_mem_cons.mpr ⟨nofun, fun name hname => (hnames name hname).2⟩)
  generalize rendered "/".toList ([] :: "workload".toList :: "config".toList :: path) = text at hcomponents ⊢
  have htext : text ≠ [] := by
    rintro rfl
    exact nomatch hcomponents
  obtain ⟨m', hcall, -⟩ := getXmlNode_found allocs hallocs [doc.root] text m
  rw [if_neg htext, hcomponents, foundNode_cons_empty,
    foundNode_eq_getXmlNode fun name hname => (hnames name hname).1] at hcall
  exact ⟨m', hcall⟩

example : rendered "/".toList ([] :: ["workload", "config", "operation", "left"].map String.toList) =
    "/workload/config/operation/left".toList := by decide

end Workload
