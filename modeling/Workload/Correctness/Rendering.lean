import Workload.Correctness.Marks
import Workload.Model.Rendering

/-!
# `Correctness.Rendering` — the text of a path list

Both passes of `workload_node_to_string` see the nodes that are written in the same order and agree on which is the
last one, so the first one counts what the second one writes. The text is the names joined by the insert string;
an empty last name is written as one more insert string, which is how the root reads as `/`.

* `nextWritten_eq`, `sizeLoop_eq`, `writeLoop_eq` — the look-ahead and the two passes.
* **`node_to_string_fits`** — the text fits the memory, and is the joined names.
-/

namespace Workload.Paths

open Blocks Memory

/-! ## What is written -/

/-- The nodes that are written. -/
def written (strip : Bool) (l : List (NodePtr × StringNode)) : List (NodePtr × StringNode) :=
  if strip then l.filter fun x => !x.2.ignore else l

/-- Their names. -/
def writtenNames (strip : Bool) (l : List (NodePtr × StringNode)) : List Text :=
  (written strip l).map fun x => workloadCheckString x.2.string

/-- What the names become: each but the last is followed by the insert string. -/
def rendered (insertString : Text) : List Text → Text
  | [] => []
  | [name] => if name = [] then insertString else name
  | name :: names => name ++ insertString ++ rendered insertString names

section Written

variable {strip : Bool} {x : NodePtr × StringNode} {l : List (NodePtr × StringNode)} {insertString name : Text}
  {names : List Text}

theorem rendered_cons (hne : names ≠ []) :
    rendered insertString (name :: names) = name ++ insertString ++ rendered insertString names := by
  obtain ⟨d, names, rfl⟩ := List.exists_cons_of_ne_nil hne
  rfl

/-- The names are joined; an empty last one adds the insert string once more. -/
theorem rendered_eq (hne : names ≠ []) : rendered insertString names =
    insertString.intercalate names ++ if names.getLast? = some [] then insertString else [] := by
  induction names with
  | nil => exact absurd rfl hne
  | cons name names ih =>
      by_cases hlast : names = []
      · subst hlast
        simp only [rendered, List.intercalate_singleton, List.getLast?_singleton, Option.some_inj]
        split_ifs with hempty
        · rw [hempty, List.nil_append]
        · rw [List.append_nil]
      · obtain ⟨d, rest, rfl⟩ := List.exists_cons_of_ne_nil hlast
        rw [rendered_cons hlast, ih hlast, List.intercalate_cons_of_ne_nil hlast, List.getLast?_cons_cons,
          List.append_assoc (name ++ insertString)]

/-- A node that is left out. -/
theorem written_cons_of_ignored (h : strip = true ∧ x.2.ignore = true) :
    written strip (x :: l) = written strip l := by
  obtain ⟨rfl, hx⟩ := h
  unfold written
  rw [if_pos rfl, if_pos rfl, List.filter_cons_of_neg (by rw [hx]; exact Bool.false_ne_true)]

theorem written_cons (h : ¬(strip = true ∧ x.2.ignore = true)) :
    written strip (x :: l) = x :: written strip l := by
  unfold written
  cases strip with
  | false => rfl
  | true =>
      have hx : x.2.ignore = false := by simpa using h
      rw [if_pos rfl, if_pos rfl, List.filter_cons_of_pos (by rw [hx]; rfl)]

theorem writtenNames_eq_nil : writtenNames strip l = [] ↔ written strip l = [] := List.map_eq_nil_iff

theorem writtenNames_cons_of_ignored (h : strip = true ∧ x.2.ignore = true) :
    writtenNames strip (x :: l) = writtenNames strip l := by
  unfold writtenNames
  rw [written_cons_of_ignored h]

theorem writtenNames_cons (h : ¬(strip = true ∧ x.2.ignore = true)) :
    writtenNames strip (x :: l) = workloadCheckString x.2.string :: writtenNames strip l := by
  unfold writtenNames
  rw [written_cons h, List.map_cons]

end Written

/-! ## The passes -/

section Passes

variable {strip : Bool} {m : Heap StringNode} {before head : Option NodePtr} {l : List (NodePtr × StringNode)}
  {n allocSize : Nat} {insertString front : Text} {free : Block Char}

/-- A list of nodes, cut anywhere. -/
abbrev NodesFrom (m : Heap StringNode) (before head : Option NodePtr) (l : List (NodePtr × StringNode)) : Prop :=
  Segment StringNode.prev StringNode.next m before head none l

/-- **The look-ahead** ends on NULL behind the last node that is written. -/
theorem nextWritten_eq (h : NodesFrom m before head l) (hn : l.length ≤ n) :
    ∃ trace2, nextWritten strip m n head = some trace2 ∧ (trace2 = none ↔ writtenNames strip l = []) := by
  induction l generalizing before head n with
  | nil =>
      obtain rfl : head = none := h
      exact ⟨none, by cases n <;> rfl, iff_of_true rfl (by cases strip <;> rfl)⟩
  | cons x l ih =>
      obtain ⟨rfl, hread, -, hrest⟩ := h
      obtain ⟨n, rfl⟩ := Nat.exists_eq_add_one_of_ne_zero (by rw [List.length_cons] at hn; omega : n ≠ 0)
      by_cases hignore : strip = true ∧ x.2.ignore = true
      · obtain ⟨trace2, hnext, hlast⟩ := ih hrest (Nat.le_of_succ_le_succ hn)
        refine ⟨trace2, ?_, by rw [writtenNames_cons_of_ignored hignore, hlast]⟩
        rw [nextWritten, if_pos hignore.1, hread, Option.bind_eq_bind, Option.bind_some, hignore.2,
          if_neg Bool.true_eq_false.mp, hnext]
      · refine ⟨some x.1, ?_, by rw [writtenNames_cons hignore]; exact iff_of_false nofun nofun⟩
        rw [nextWritten]
        split_ifs with hstrip
        · have hx : x.2.ignore = false := by simpa [hstrip] using hignore
          rw [hread, Option.bind_eq_bind, Option.bind_some, if_pos hx]
        · rfl

/-- The bytes the first pass counts: of a list without a written node, none. -/
def renderedSize (insertString : Text) (names : List Text) : Nat :=
  if names = [] then 0 else (rendered insertString names).length + 1

/-- **The first pass** counts the text and its terminator. -/
theorem sizeLoop_eq (h : NodesFrom m before head l) (hn : l.length ≤ n) (hm : l.length ≤ m.size) :
    sizeLoop insertString strip m n head allocSize =
      some (allocSize + renderedSize insertString (writtenNames strip l)) := by
  induction l generalizing before head n allocSize with
  | nil =>
      obtain rfl : head = none := h
      cases strip <;> cases n <;> rfl
  | cons x l ih =>
      obtain ⟨rfl, hread, -, hrest⟩ := h
      rw [List.length_cons] at hn hm
      obtain ⟨n, rfl⟩ := Nat.exists_eq_add_one_of_ne_zero (by omega : n ≠ 0)
      obtain ⟨trace2, hnext, hlast⟩ : ∃ trace2, nextWritten strip m m.size x.2.next = some trace2 ∧ _ :=
        nextWritten_eq hrest (by omega)
      rw [sizeLoop, hread, Option.bind_eq_bind, Option.bind_some]
      by_cases hignore : strip = true ∧ x.2.ignore = true
      · rw [if_pos hignore, ih hrest (by omega) (by omega), writtenNames_cons_of_ignored hignore]
      · simp only [if_neg hignore, hnext, Option.bind_eq_bind, Option.bind_some]
        rw [ih hrest (by omega) (by omega), writtenNames_cons hignore]
        refine congrArg some ?_
        unfold renderedSize
        rw [if_neg (List.cons_ne_nil _ _)]
        by_cases hend : writtenNames strip l = []
        · -- the last name: the terminator is counted here, and the insert string only in place of an empty name
          rw [if_pos (hlast.mpr hend), if_pos hend, hend, rendered, Nat.add_zero]
          simp only [Nat.le_zero, List.length_eq_zero_iff]
          split_ifs <;> rfl
        · rw [if_neg fun h => hend (hlast.mp h), if_neg hend, rendered_cons hend, List.length_append,
            List.length_append]
          omega

/-- Behind the last node that is written the second pass writes nothing. -/
theorem writeLoop_ignored (h : NodesFrom m before head l) (hn : l.length ≤ n) (hend : writtenNames strip l = [])
    (result : Block Char) : writeLoop insertString strip m n head allocSize result = some result := by
  induction l generalizing before head n with
  | nil =>
      obtain rfl : head = none := h
      cases n <;> rfl
  | cons x l ih =>
      obtain ⟨rfl, hread, -, hrest⟩ := h
      obtain ⟨n, rfl⟩ := Nat.exists_eq_add_one_of_ne_zero (by rw [List.length_cons] at hn; omega : n ≠ 0)
      by_cases hignore : strip = true ∧ x.2.ignore = true
      · rw [writtenNames_cons_of_ignored hignore] at hend
        rw [writeLoop, hread, Option.bind_eq_bind, Option.bind_some, if_pos hignore]
        exact ih hrest (Nat.le_of_succ_le_succ hn) hend
      · rw [writtenNames_cons hignore] at hend
        exact absurd hend (List.cons_ne_nil _ _)

/-- What is printed for the last node. -/
theorem nodeText_last (string : Option Text) :
    nodeText insertString none string = some (rendered insertString [workloadCheckString string]) := by
  unfold nodeText rendered
  simp only [if_true, Nat.le_zero, List.length_eq_zero_iff]
  split_ifs with hempty
  · rfl
  · cases string with
    | none => exact absurd rfl hempty
    | some name => rfl

/-- **The second pass** fills memory of the size of the first. -/
theorem writeLoop_eq (front : Text) (h : NodesFrom m before head l) (hn : l.length ≤ n) (hm : l.length ≤ m.size)
    (hsome : writtenNames strip l ≠ []) (hnames : ∀ x ∈ (written strip l).dropLast, x.2.string ≠ none)
    (hsize : free.length = (rendered insertString (writtenNames strip l)).length + 1) :
    writeLoop insertString strip m n head front.length (front.map .char ++ free) =
      some ((front ++ rendered insertString (writtenNames strip l)).map .char ++ [.terminator]) := by
  induction l generalizing before head n front free with
  | nil => exact absurd (by cases strip <;> rfl) hsome
  | cons x l ih =>
      obtain ⟨rfl, hread, -, hrest⟩ := h
      rw [List.length_cons] at hn hm
      obtain ⟨n, rfl⟩ := Nat.exists_eq_add_one_of_ne_zero (by omega : n ≠ 0)
      obtain ⟨trace2, hnext, hlast⟩ : ∃ trace2, nextWritten strip m m.size x.2.next = some trace2 ∧ _ :=
        nextWritten_eq hrest (by omega)
      rw [writeLoop, hread, Option.bind_eq_bind, Option.bind_some]
      by_cases hignore : strip = true ∧ x.2.ignore = true
      · rw [writtenNames_cons_of_ignored hignore] at hsome hsize ⊢
        rw [written_cons_of_ignored hignore] at hnames
        rw [if_pos hignore]
        exact ih front hrest (by omega) (by omega) hsome hnames hsize
      · rw [writtenNames_cons hignore] at hsize ⊢
        rw [written_cons hignore] at hnames
        simp only [if_neg hignore, hnext, Option.bind_eq_bind, Option.bind_some]
        by_cases hend : writtenNames strip l = []
        · -- nothing is written behind this node
          rw [hend] at hsize ⊢
          have hfit : (rendered insertString [workloadCheckString x.2.string]).length < free.length := by omega
          rw [hlast.mpr hend, nodeText_last]
          simp only [Option.bind_some, putString_append hfit]
          rw [writeLoop_ignored hrest (by omega) hend, List.drop_of_length_le (by omega)]
        · -- a name and the insert string; the next write starts on the terminator behind them
          have hwritten : written strip l ≠ [] := fun h => hend (writtenNames_eq_nil.mpr h)
          rw [List.dropLast_cons_of_ne_nil hwritten] at hnames
          obtain ⟨hx, hnames⟩ := List.forall_mem_cons.mp hnames
          obtain ⟨name, hname⟩ := Option.ne_none_iff_exists'.mp hx
          have htext : nodeText insertString trace2 (some name) = some (name ++ insertString) := by
            rw [nodeText, if_neg fun h => hend (hlast.mp h), Option.map_some]
          rw [rendered_cons hend, hname, workloadCheckString_some] at hsize ⊢
          generalize name ++ insertString = text at htext hsize ⊢
          rw [List.length_append] at hsize
          have hfit : text.length < free.length := by omega
          have hfree : (Cell.terminator :: free.drop (text.length + 1)).length =
              (rendered insertString (writtenNames strip l)).length + 1 := by
            rw [List.length_cons, List.length_drop]
            omega
          have hstep := ih (front ++ text) hrest (by omega : l.length ≤ n) (by omega) hend hnames hfree
          simp only [htext, Option.bind_some, putString_append hfit]
          rw [← List.length_append, hstep, List.append_assoc]

end Passes

/-! ## The call -/

section Call

variable {m : Heap StringNode} {head : Option NodePtr} {l : List (NodePtr × StringNode)}

/-- The text of a list. -/
def listText (insertString : Option Text) (strip : Bool) (l : List (NodePtr × StringNode)) : Text :=
  rendered (workloadCheckString insertString) (writtenNames strip l)

/-- What `workload_node_to_string` returns, with a node to write and without one. -/
theorem nodeToString_eq (malloc : Nat → Bool) (h : Nodes m head l) (hne : l ≠ []) (insertString : Option Text)
    (strip : Bool) (hnames : ∀ x ∈ (written strip l).dropLast, x.2.string ≠ none) :
    ∃ block : Block Char,
      workloadNodeToString malloc m head insertString strip =
        some (if malloc block.length = true then some block else none) ∧
      block = if written strip l = [] then [] else (listText insertString strip l).map .char ++ [.terminator] := by
  have hlen := h.length_le
  have hhead : ¬head = none := by
    obtain ⟨x, l, rfl⟩ := List.exists_cons_of_ne_nil hne
    rw [h.head_eq]
    exact nofun
  unfold workloadNodeToString
  rw [if_neg hhead]
  simp only [sizeLoop_eq h.segment hlen hlen, Option.bind_eq_bind, Option.bind_some, Nat.zero_add]
  unfold renderedSize
  by_cases hwritten : written strip l = []
  · -- nothing is counted, so memory of no bytes is asked for
    have hnil : writtenNames strip l = [] := writtenNames_eq_nil.mpr hwritten
    refine ⟨[], ?_, by rw [if_pos hwritten]⟩
    rw [if_pos hnil, writeLoop_ignored h.segment hlen hnil]
    cases malloc 0 <;> rfl
  · have hsome : writtenNames strip l ≠ [] := fun h => hwritten (writtenNames_eq_nil.mp h)
    refine ⟨_, ?_, by rw [if_neg hwritten]⟩
    have hsize : (rendered (workloadCheckString insertString) (writtenNames strip l)).length + 1 =
        ((listText insertString strip l).map Cell.char ++ [Cell.terminator]).length := by
      rw [List.length_append, List.length_map]
      rfl
    have hpass := writeLoop_eq [] h.segment hlen hlen hsome hnames
      (length_unsetBlock ((rendered (workloadCheckString insertString) (writtenNames strip l)).length + 1))
    rw [if_neg hsome, ← hsize]
    cases malloc ((rendered (workloadCheckString insertString) (writtenNames strip l)).length + 1) with
    | false => rfl
    | true =>
        rw [if_pos rfl, if_pos rfl]
        exact congrArg (Option.bind · fun result => some (some result)) hpass

/-- **The text of a list fits.** Nothing is put outside the memory of the size that was counted; with a node to
    write, this memory is the names joined by the insert string, an empty last name as one more insert string, and
    a terminator in its last byte. -/
theorem node_to_string_fits (malloc : Nat → Bool) (m : Heap StringNode) (head : Option NodePtr)
    (l : List (NodePtr × StringNode)) (insertString : Option Text) (strip : Bool) (h : Nodes m head l)
    (hne : l ≠ []) (hnames : ∀ x ∈ (written strip l).dropLast, x.2.string ≠ none) :
    ∃ block : Block Char,
      workloadNodeToString malloc m head insertString strip =
        some (if malloc block.length = true then some block else none) ∧
      (written strip l ≠ [] → ∃ text, getString block = some text ∧ block.length = text.length + 1 ∧
        text = (workloadCheckString insertString).intercalate (writtenNames strip l) ++
          if (writtenNames strip l).getLast? = some [] then workloadCheckString insertString else []) := by
  obtain ⟨block, hcall, hblock⟩ := nodeToString_eq malloc h hne insertString strip hnames
  refine ⟨block, hcall, fun hwritten => ⟨listText insertString strip l, ?_, ?_, ?_⟩⟩
  · rw [hblock, if_neg hwritten]
    exact getString_of_terminated
  · rw [hblock, if_neg hwritten, List.length_append, List.length_map]
    rfl
  · exact rendered_eq fun h => hwritten (writtenNames_eq_nil.mp h)

/-- The root, `a` with a mark, and `b`. -/
def smallNodes : List (NodePtr × StringNode) :=
  [(0, ⟨none, some 1, false, some []⟩), (1, ⟨some 0, some 2, true, some "a".toList⟩),
    (2, ⟨some 1, none, false, some "b".toList⟩)]

theorem node_to_string_small : ∃ block : Block Char,
    workloadNodeToString (fun _ => true) ⟨smallNodes.map fun x => some x.2⟩ (some 0) (some "/".toList) true =
        some (some block) ∧ getString block = some "/b".toList := by
  have hnodes : Nodes ⟨smallNodes.map fun x => some x.2⟩ (some 0) smallNodes :=
    ⟨⟨rfl, rfl, rfl, rfl, rfl, rfl, rfl, rfl, rfl, rfl⟩, by decide⟩
  obtain ⟨block, hcall, htext⟩ := node_to_string_fits (fun _ => true) _ _ smallNodes (some "/".toList) true hnodes
    (List.cons_ne_nil _ _) (List.forall_mem_singleton.mpr nofun)
  obtain ⟨text, hget, -, rfl⟩ := htext (List.cons_ne_nil _ _)
  exact ⟨block, hcall, hget⟩

/-- A single empty name is written as the insert string. Where every node is left out nothing is written, no
    terminator either, and a NULL name in front of another one has no outcome. -/
theorem node_to_string_exceptions :
    workloadNodeToString (fun _ => true) ⟨[some ⟨none, none, false, some []⟩]⟩ (some 0) (some "/".toList) false =
        some (some [.char '/', .terminator]) ∧ "/".toList.intercalate [[]] ≠ "/".toList ∧
      workloadNodeToString (fun _ => true) ⟨[some ⟨none, none, true, some ".".toList⟩]⟩ (some 0)
        (some "/".toList) true = some (some []) ∧ getString ([] : Block Char) = none ∧
      workloadNodeToString (fun _ => true) ⟨[some ⟨none, some 1, false, none⟩,
        some ⟨some 0, none, false, some "a".toList⟩]⟩ (some 0) (some "/".toList) false = none := by
  decide

end Call

end Workload.Paths
