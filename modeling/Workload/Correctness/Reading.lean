import Workload.Correctness.Handlers
import Workload.Correctness.Lookup
import Workload.Correctness.Parsing

/-!
# `Correctness.Reading` — documents in memory as documents

A parse is a run of handlers, so its tags are those of an outline whatever the bytes were (`Handled.keeps`), and the
bytes have paid for them (`Census`): three for every tag, and a fourth when it is closed.

* **`parsed_size`** — one element at the root, as many elements as tags, and at most a quarter of the bytes.
* **`pointers_refine`** — from any tag of any document the program finds what can be read there.
-/

namespace Workload

open Memory Parents Tags Paths

variable {root r r' : EzxmlRoot} {o : Outline} {n : Nat} {name : Text} {attr : List (Text × Text)} {data s : Text}

/-! ## Handlers -/

/-- The root tag has no name yet, or the tags are paid for but for one byte for each one that is open. -/
def Census (o : Outline) (n : Nat) : Prop :=
  (o.cur ≠ none ∧ o.curName = none) ∨ ∃ d, Up o.rows o.cur d ∧ 4 * o.rows.length ≤ n + d

theorem Census.openTag (h : Census o n) (hvalid : o.Valid) (hc : o.cur ≠ none) :
    Census (o.openTag name attr) (n + 3) := by
  obtain ⟨c, hc⟩ := Option.ne_none_iff_exists'.mp hc
  have hlt := hvalid.cur c hc
  by_cases hnone : (rowAt o.rows c).name = none
  · rw [Outline.openTag_of_unnamed hc hnone]
    have hone := hvalid.named c hlt hnone
    have hup : Up (edit o.rows c fun r => { r with name := some name, attr := attr }) (parentAt o.rows c) 0 := by
      cases hp : parentAt o.rows c with
      | none => exact .out
      | some p =>
          have := hvalid.rooted c p hp
          omega
    rw [← parentAt_edit (i := c)] at hup
    refine .inr ⟨1, hc ▸ hup.row, ?_⟩
    dsimp only
    rw [length_edit]
    omega
  · rw [Outline.openTag_of_named hc hnone]
    rcases h with ⟨-, hcur⟩ | ⟨d, hup, hle⟩
    · rw [Outline.curName, hc] at hcur
      exact absurd hcur hnone
    · rw [hc] at hup
      refine .inr ⟨d + 1, hup.push hvalid.rooted hlt, ?_⟩
      dsimp only
      rw [length_push]
      omega

theorem Census.closeTag (h : Census o n) (hname : o.curName = some name) : Census o.closeTag (n + 1) := by
  rcases h with ⟨-, hcur⟩ | ⟨d, hup, hle⟩
  · rw [hcur] at hname
    exact nomatch hname
  · obtain ⟨c, hc, -⟩ := Option.bind_eq_some_iff.mp hname
    unfold Outline.closeTag
    rw [hc] at hup ⊢
    cases hup with
    | row hup => exact .inr ⟨_, hup, hle.trans (by omega)⟩

theorem Census.addText (h : Census o n) (hvalid : o.Valid) : Census (o.addText s) n := by
  unfold Outline.addText
  split
  · exact h
  · next c hc =>
    have hlt := hvalid.cur c hc
    rcases h with ⟨hcur, hnone⟩ | ⟨d, hup, hle⟩
    · refine .inl ⟨hcur, ?_⟩
      rw [Outline.curName, hc] at hnone ⊢
      dsimp only [Option.bind_some] at hnone ⊢
      rw [rowAt_edit hlt]
      exact hnone
    · refine .inr ⟨d, ?_, ?_⟩
      · dsimp only
        exact hup.edit hvalid.rooted hvalid.cur
      · dsimp only
        rwa [length_edit]

/-- **The tags of a run of handlers** are those of an outline, and paid for. -/
theorem Handled.keeps (h : Handled ezxmlNew n r) : ∃ o, Keeps r o ∧ Census o n := by
  induction h with
  | start n => exact ⟨Outline.start, Keeps.start, .inl ⟨nofun, rfl⟩⟩
  | @openTag n r r' name attr _ hopen ih =>
      obtain ⟨o, hkeeps, hcensus⟩ := ih
      have hc : o.cur ≠ none := by
        intro hnone
        rw [ezxmlOpenTag, hkeeps.cur, hnone] at hopen
        exact nomatch hopen
      obtain ⟨r₁, hr₁, hkeeps'⟩ : ∃ r₁, ezxmlOpenTag r name attr = some r₁ ∧ Keeps r₁ (o.openTag name attr) := by
        obtain ⟨r₁, hr₁, -, -, hkeeps'⟩ := hkeeps.openTag hc
        exact ⟨r₁, hr₁, hkeeps'⟩
      obtain rfl := Option.some.inj (hr₁.symm.trans hopen)
      exact ⟨_, hkeeps', hcensus.openTag hkeeps.valid hc⟩
  | @closeTag n r r' name _ hclose ih =>
      obtain ⟨o, hkeeps, hcensus⟩ := ih
      by_cases hname : o.curName = some name
      · obtain ⟨hr, hkeeps'⟩ := hkeeps.closeTag hname
        obtain rfl := Sum.inl.inj (Option.some.inj (hr.symm.trans hclose))
        exact ⟨_, hkeeps', hcensus.closeTag hname⟩
      · rw [hkeeps.closeTag_error hname] at hclose
        exact nomatch hclose
  | @content n r r' s _ hadd ih =>
      obtain ⟨o, hkeeps, hcensus⟩ := ih
      cases hc : o.cur with
      | none =>
          rw [addContent, hkeeps.cur, hc] at hadd
          exact nomatch hadd
      | some c =>
          obtain ⟨r₁, hr₁, -, -, hkeeps'⟩ := hkeeps.addContent_eq (s := s) hc
          obtain rfl := Option.some.inj (hr₁.symm.trans hadd)
          exact ⟨_, hkeeps', hcensus.addText hkeeps.valid⟩
  | other _ hheap hcur ih =>
      obtain ⟨o, hkeeps, hcensus⟩ := ih
      exact ⟨o, ⟨hheap ▸ hkeeps.tagged, hcur.trans hkeeps.cur, hkeeps.valid⟩, hcensus⟩

/-! ## How much there is to read -/

section Size

variable {t : Table TagRow} {p : Nat}

theorem sizes_append (x y : Node) : Xml.sizes (x ++ y) = Xml.sizes x + Xml.sizes y := by
  induction x with
  | nil => rw [List.nil_append, Xml.sizes, Nat.zero_add]
  | cons e x ih => rw [List.cons_append, Xml.sizes, ih, Xml.sizes, Nat.add_assoc]

theorem sizes_flatMap (l : List Nat) : Xml.sizes (nodeOf (l.flatMap (tree t))) =
    (l.map fun i => Xml.sizes (nodeOf (tree t i))).sum := by
  induction l with
  | nil => rfl
  | cons i l ih => rw [List.flatMap_cons, nodeOf_append, sizes_append, ih, List.map_cons, List.sum_cons]

theorem sizes_tree (hroot : Rooted t) (hp : p < t.length) : Xml.sizes (nodeOf (tree t p)) =
    1 + ((kids t p).map fun i => Xml.sizes (nodeOf (tree t i))).sum := by
  rw [nodeOf_tree hroot hp, ← sizes_flatMap]
  rfl

/-- The root tag is read with everything below it, and that is every tag. -/
theorem Keeps.readRoot (h : Keeps root o) :
    ∃ x, readNode root.heap root.heap.size (some 0) = some [x] ∧ x.size = o.rows.length := by
  refine ⟨_, readNode_root h, ?_⟩
  have hpos := h.valid.pos
  have hsum := sum_roots h.valid.rooted fun p hp => sizes_tree h.valid.rooted hp
  rw [Finset.sum_eq_single 0 (fun i hi hne => if_neg (h.valid.parent i (Nat.pos_of_ne_zero hne)
    (Finset.mem_range.mp hi))) fun hmem => absurd (Finset.mem_range.mpr hpos) hmem,
    if_pos (parentAt_zero h.valid), nodeOf_tree h.valid.rooted hpos] at hsum
  exact hsum

end Size

/-- The tags of `<a><b x='1'/></a>`. -/
def smallTags : EzxmlRoot where
  heap := ⟨[some ⟨some ['a'], [], [], 0, none, none, none, some 1, none⟩,
    some ⟨some ['b'], [(['x'], ['1'])], [], 0, none, none, none, none, some 0⟩]⟩
  cur := none
  pi := []
  err := none

/-- Whatever was parsed without an internal subset, the tags are those of an outline. -/
theorem parsed_outline (h : parseBytes data = some root) :
    ∃ o, Keeps root o ∧ Census o data.length ∧ (root.err = none → root.cur = none) := by
  obtain ⟨hhandled, herr⟩ := parseBytes_handled h
  obtain ⟨o, hkeeps, hcensus⟩ := hhandled.keeps
  exact ⟨o, hkeeps, hcensus, herr⟩

/-- When every tag has been closed, the tags have taken four bytes each. -/
theorem Census.closed (h : Census o n) (hcur : o.cur = none) : 4 * o.rows.length ≤ n := by
  rcases h with ⟨hne, -⟩ | ⟨d, hup, hle⟩
  · exact absurd hcur hne
  · rw [hcur] at hup
    cases hup
    exact hle

theorem Census.opened (h : Census o n) (hvalid : o.Valid) : o.rows.length = 1 ∨ 3 * o.rows.length ≤ n := by
  rcases h with ⟨hcur, hnone⟩ | ⟨d, hup, hle⟩
  · obtain ⟨c, hc⟩ := Option.ne_none_iff_exists'.mp hcur
    rw [Outline.curName, hc] at hnone
    exact .inl (hvalid.named c (hvalid.cur c hc) hnone)
  · have hd := hup.le_succ hvalid.rooted hvalid.cur
    exact .inr (by omega)

/-- **The size of a document** without an internal subset: the root tag is read with all the tags there are; each has
    taken three bytes, and in a document without errors four. -/
theorem parsed_size (h : parseBytes data = some root) :
    ∃ x, readNode root.heap root.heap.size (some 0) = some [x] ∧ x.size = root.heap.size ∧
      (x.size = 1 ∨ 3 * x.size ≤ data.length) ∧ (root.err = none → 4 * x.size ≤ data.length) := by
  obtain ⟨o, hkeeps, hcensus, herr⟩ := parsed_outline h
  obtain ⟨x, hread, hsize⟩ := hkeeps.readRoot
  refine ⟨x, hread, hsize.trans hkeeps.tagged.1.symm, ?_, fun hnone => ?_⟩
  · rw [hsize]
    exact hcensus.opened hkeeps.valid
  · rw [hsize]
    exact hcensus.closed (hkeeps.cur.symm.trans (herr hnone))

theorem parsed_size_small : ∃ x, readNode smallTags.heap 2 (some 0) = some [x] ∧ x.size = 2 ∧ 4 * x.size ≤ 17 := by
  have hparse : parseBytes "<a><b x='1'/></a>".toList = some smallTags := rfl
  obtain ⟨x, hread, hsize, -, hle⟩ := parsed_size hparse
  exact ⟨x, hread, hsize, hle rfl⟩

/-! ## Pointers -/

section Pointers

variable {t : Table TagRow} {tags : Heap Ezxml} {m : Heap StringNode} {k : Nat} {l : List Nat}

/-- Both loops of `workload_get_xml_node` stop at the same element. -/
theorem xmlTagLoop_eq (h : Tagged tags t) (hroot : Rooted t) (hl : Level t l) {head : Option NodePtr}
    {result : Option TagPtr} {found : Node} (hresult : readNode tags tags.size result = some found) :
    (xmlTagLoop m tags k l.head? head result).bind (readNode tags tags.size) =
      xmlNodeLoop m k (nodeOf (l.flatMap (tree t))) head found := by
  induction k generalizing l head result found with
  | zero =>
      cases l with
      | nil => exact hresult
      | cons i l =>
          rw [nodeOf_cons hroot hl.head.1]
          cases head with
          | none => exact hresult
          | some p => rfl
  | succ k ih =>
      cases l with
      | nil => exact hresult
      | cons i l =>
          have hcons := nodeOf_cons hroot hl.head.1 l
          cases head with
          | none =>
              rw [hcons]
              exact hresult
          | some p =>
              rw [List.head?_cons, xmlTagLoop, hcons, xmlNodeLoop]
              cases hread : m.read p with
              | none => rfl
              | some trace =>
                  simp only [Option.bind_eq_bind, Option.bind_some]
                  rw [← hcons]
                  by_cases hname : workloadCheckString trace.string = []
                  · rw [if_pos hname, if_pos hname]
                    exact ih hl hresult
                  · rw [if_neg hname, if_neg hname, ← List.head?_cons (l := l), orderedLoop_size h hl,
                      seekNode_eq hroot _ hl]
                    have hlevel := hl.dropWhile (otherName t (workloadCheckString trace.string))
                    cases hdrop : (i :: l).dropWhile (otherName t (workloadCheckString trace.string)) with
                    | nil => exact hresult
                    | cons j rest =>
                        -- the element is there; its children are the next level
                        rw [hdrop] at hlevel
                        simp only [List.head?_cons, Option.bind_some, h.2 j hlevel.head.1]
                        rw [nodeOf_cons hroot hlevel.head.1]
                        refine ih (Level.kids t j) ?_
                        split_ifs
                        · exact (readNode_size h hroot hlevel).trans
                            (congrArg some (nodeOf_cons hroot hlevel.head.1 rest))
                        · exact hresult

/-- What is found by pointers is what is found in the node that can be read. -/
theorem Keeps.refine (h : Keeps root o) {head : Option TagPtr} (hlevel : ∃ l, Level o.rows l ∧ l.head? = head) :
    ∃ node, readNode root.heap root.heap.size head = some node ∧
      (∀ name, (xmlSubTag root.heap head name).bind (readNode root.heap root.heap.size) =
        some (workloadXmlSubNodeEx node name)) ∧
      (∀ name, (xmlNextTag root.heap head name).bind (readNode root.heap root.heap.size) =
        some (workloadXmlNextNodeEx node name)) ∧
      ∀ allocs path m, (workloadGetXmlTag allocs root.heap head path m).bind
          (fun found => (readNode root.heap root.heap.size found.1).map fun node => (node, found.2)) =
        workloadGetXmlNode allocs (head.map fun _ => node) path m := by
  obtain ⟨l, hl, rfl⟩ := hlevel
  have hroot := h.valid.rooted
  have hread := readNode_size h.tagged hroot hl
  have hnone : readNode root.heap root.heap.size none = some [] := by rw [readNode]
  refine ⟨_, hread, ?_⟩
  cases l with
  | nil =>
      refine ⟨fun _ => hnone, fun _ => hnone, fun allocs path m => ?_⟩
      change (readNode root.heap root.heap.size none).map (fun node => (node, m)) = _
      rw [hnone]
      rfl
  | cons i l =>
      have hnamed : ∀ j ∈ kids o.rows i, (rowAt o.rows j).name ≠ none := by
        intro j hj hnone
        have hlt := hroot j i (mem_kids.mp hj)
        have hone := h.valid.named j (lt_length_of_mem_kids hj) hnone
        have hj := lt_length_of_mem_kids hj
        omega
      refine ⟨fun name => ?_, fun name => ?_, fun allocs path m => ?_⟩
      · obtain ⟨l', hl', hsub, hnode⟩ := xmlSubTag_eq h.tagged hroot hl hnamed name
        rw [List.head?_cons, hsub, Option.bind_some, hnode]
        exact readNode_size h.tagged hroot hl'
      · obtain ⟨l', hl', hnext, hnode⟩ := xmlNextTag_eq h.tagged hroot hl name
        rw [List.head?_cons, hnext, Option.bind_some, hnode]
        exact readNode_size h.tagged hroot hl'
      · rw [List.head?_cons, Option.map_some, workloadGetXmlTag, workloadGetXmlNode]
        cases workloadPathToNode allocs path m with
        | none => rfl
        | some parts =>
            obtain ⟨pathNode, m'⟩ := parts
            simp only [Option.bind_eq_bind, Option.bind_some]
            by_cases hempty : pathNode = none
            · rw [if_pos hempty, if_pos hempty, Option.bind_some, ← List.head?_cons (l := l), hread]
              rfl
            · rw [if_neg hempty, if_neg hempty, ← List.head?_cons (l := l),
                ← xmlTagLoop_eq (m := m') (k := m'.size) h.tagged hroot hl hnone]
              cases xmlTagLoop m' root.heap m'.size (i :: l).head? pathNode none with
              | none => rfl
              | some found =>
                  -- the components of the path are freed behind the loop in both
                  simp only [Option.bind_some]
                  cases workloadFreeStringNode m'.size pathNode m' with
                  | none => cases readNode root.heap root.heap.size found <;> rfl
                  | some m'' =>
                      simp only [Option.bind_some]
                      cases readNode root.heap root.heap.size found <;> rfl

end Pointers

end Workload
