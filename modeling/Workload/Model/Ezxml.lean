import Workload.Lib.Memory
import Workload.Model.Xml

/-!
# `Model.Ezxml` — the tags of `ezxml.c` in memory

A tag is a cell of a `Heap` with five pointers to other tags: `next` to the next one with the same name, `sibling`
to the next one with another name, `ordered` to the next one, `child` to the first tag inside of it and `parent`.
Reading or writing through NULL has no outcome. Where a text is kept (`m_flags`) is left out.

`EzxmlRoot` is the state of a parse. Its handlers are called when the parser has read a tag or a text. The root tag
is the first cell.
-/

namespace Workload

open Memory

abbrev TagPtr := Nat

/-- `struct ezxml`; only the root tag can be without a name. -/
structure Ezxml where
  name : Option Text
  attr : List (Text × Text)
  txt : Text
  off : Nat
  next : Option TagPtr
  sibling : Option TagPtr
  ordered : Option TagPtr
  child : Option TagPtr
  parent : Option TagPtr

/-- A processing instruction, and whether it stands behind the start of the root tag. -/
structure Instruction where
  text : Text
  afterRoot : Bool

/-- `struct ezxml_root`: the tags, the insertion point, the processing instructions by their targets, and the
    message of `err`. -/
structure EzxmlRoot where
  heap : Heap Ezxml
  cur : Option TagPtr
  pi : List (Text × List Instruction)
  err : Option Text

/-- The names of `ent`, each with the reference it stands for. -/
def ezxmlEntities : List (Text × Text) :=
  [("lt;".toList, "&#60;".toList), ("gt;".toList, "&#62;".toList), ("quot;".toList, "&#34;".toList),
    ("apos;".toList, "&#39;".toList), ("amp;".toList, "&#38;".toList)]

/-- `xml->field = ...`. -/
def setTag (m : Heap Ezxml) (p : TagPtr) (f : Ezxml → Ezxml) : Option (Heap Ezxml) := do
  let x ← m.read p
  m.write p (f x)

/-- `ezxml_new(NULL)`. -/
def ezxmlNew : EzxmlRoot where
  heap := ⟨[some ⟨none, [], [], 0, none, none, none, none, none⟩]⟩
  cur := some 0
  pi := []
  err := none

/-! ## Looking up tags -/

/-- `while (xml && strcmp(name, xml->name)) xml = xml->sibling;`, for at most `n` tags. -/
def siblingLoop (m : Heap Ezxml) (name : Text) : Nat → Option TagPtr → Option (Option TagPtr)
  | _, none => some none
  | 0, some _ => none
  | n + 1, some p => do
      let x ← m.read p
      if x.name = some name then some (some p) else siblingLoop m name n x.sibling

/-- `ezxml_child`. -/
def ezxmlChild (m : Heap Ezxml) (xml : Option TagPtr) (name : Text) : Option (Option TagPtr) :=
  match xml with
  | none => some none
  | some p => do
      let x ← m.read p
      siblingLoop m name m.size x.child

/-- `for(; s_xml_this && strcmp(s_tag_name, name); s_xml_this = s_xml_this->ordered);`, for at most `n` tags. -/
def orderedLoop (m : Heap Ezxml) (name : Text) : Nat → Option TagPtr → Option (Option TagPtr)
  | _, none => some none
  | 0, some _ => none
  | n + 1, some p => do
      let x ← m.read p
      if workloadCheckString x.name = name then some (some p) else orderedLoop m name n x.ordered

/-- `workload_xml_next_node_ex` with a tag name, on pointers. -/
def xmlNextTag (m : Heap Ezxml) (node : Option TagPtr) (tagName : Text) : Option (Option TagPtr) :=
  match node with
  | none => some none
  | some p => do
      let x ← m.read p
      orderedLoop m tagName m.size x.ordered

/-- `workload_xml_sub_node_ex` with a tag name, on pointers. -/
def xmlSubTag (m : Heap Ezxml) (node : Option TagPtr) (subTagName : Text) : Option (Option TagPtr) :=
  ezxmlChild m node subTagName

/-- What can be read from a tag pointer on through `child` and `ordered`, at most `n` tags deep and wide. -/
def readNode (m : Heap Ezxml) : Nat → Option TagPtr → Option Node
  | _, none => some []
  | 0, some _ => none
  | n + 1, some p => do
      let x ← m.read p
      let children ← readNode m n x.child
      let rest ← readNode m n x.ordered
      some (.element (workloadCheckString x.name) x.attr x.txt children :: rest)

/-! ## Inserting tags -/

/-- `cur && cur->off <= off`. -/
def offAtMost (m : Heap Ezxml) (off : Nat) : Option TagPtr → Option Bool
  | none => some false
  | some p => do
      let x ← m.read p
      some (decide (x.off ≤ off))

/-- `while (cur->field && cur->field->off <= off) cur = cur->field;`, for at most `n` tags. -/
def lastAtMost (m : Heap Ezxml) (field : Ezxml → Option TagPtr) (off : Nat) : Nat → TagPtr → Option TagPtr
  | 0, _ => none
  | n + 1, cur => do
      let x ← m.read cur
      match field x with
      | none => some cur
      | some p =>
          let y ← m.read p
          if y.off ≤ off then lastAtMost m field off n p else some cur

/-- `for (...; cur && stop; prev = cur, cur = cur->sibling);`: `prev` and `cur` behind the loop. -/
def siblingWalk (m : Heap Ezxml) (stop : Ezxml → Bool) :
    Nat → Option TagPtr → Option TagPtr → Option (Option TagPtr × Option TagPtr)
  | _, prev, none => some (prev, none)
  | 0, _, some _ => none
  | n + 1, prev, some cur => do
      let x ← m.read cur
      if stop x then some (prev, some cur) else siblingWalk m stop n (some cur) x.sibling

/-- The new tag joins the chain of all tags of `dest`. -/
def insertOrdered (m : Heap Ezxml) (xml dest head : TagPtr) (off : Nat) : Option (Heap Ezxml) := do
  let notFirst ← offAtMost m off (some head)
  if notFirst then
    let cur ← lastAtMost m Ezxml.ordered off m.size head
    let x ← m.read cur
    let m ← setTag m xml fun y => { y with ordered := x.ordered }
    setTag m cur fun y => { y with ordered := some xml }
  else
    let m ← setTag m xml fun y => { y with ordered := some head }
    setTag m dest fun y => { y with child := some xml }

/-- The new tag joins the chain of its name, or starts one. -/
def insertType (m : Heap Ezxml) (xml head : TagPtr) (off : Nat) : Option (Heap Ezxml) := do
  let x ← m.read xml
  let (prev, cur) ← siblingWalk m (fun y => y.name = x.name) m.size none (some head)
  let notFirst ← offAtMost m off cur
  match cur, notFirst with
  | some first, true => do
      let cur ← lastAtMost m Ezxml.next off m.size first
      let y ← m.read cur
      let m ← setTag m xml fun x => { x with next := y.next }
      setTag m cur fun y => { y with next := some xml }
  | _, _ => do
      let m ← match prev, cur with
        | some prev, some cur => do
            let y ← m.read cur
            setTag m prev fun x => { x with sibling := y.sibling }
        | _, _ => some m
      let m ← setTag m xml fun x => { x with next := cur }
      let (prev, cur) ← siblingWalk m (fun y => off < y.off) m.size none (some head)
      let m ← setTag m xml fun x => { x with sibling := cur }
      match prev with
      | none => some m
      | some prev => setTag m prev fun x => { x with sibling := some xml }

/-- `ezxml_insert`. -/
def ezxmlInsert (m : Heap Ezxml) (xml dest : TagPtr) (off : Nat) : Option (Heap Ezxml) := do
  let m ← setTag m xml fun x =>
    { x with next := none, sibling := none, ordered := none, off := off, parent := some dest }
  let d ← m.read dest
  match d.child with
  | none => setTag m dest fun x => { x with child := some xml }
  | some head => do
      let m ← insertOrdered m xml dest head off
      insertType m xml head off

/-- `ezxml_add_child`: the tag and the memory. -/
def ezxmlAddChild (m : Heap Ezxml) (xml : TagPtr) (name : Text) (off : Nat) : Option (TagPtr × Heap Ezxml) := do
  let (child, m) := m.alloc ⟨some name, [], [], 0, none, none, none, none, none⟩
  let m ← ezxmlInsert m child xml off
  some (child, m)

/-! ## Handlers -/

/-- `ezxml_err`; the number of the line is left out. -/
def ezxmlErr (root : EzxmlRoot) (err : Text) : EzxmlRoot := { root with err := some err }

/-- `ezxml_open_tag`. -/
def ezxmlOpenTag (root : EzxmlRoot) (name : Text) (attr : List (Text × Text)) : Option EzxmlRoot := do
  let cur ← root.cur
  let x ← root.heap.read cur
  let (xml, m) ←
    if x.name = none then do
      -- first open tag
      let m ← setTag root.heap cur fun x => { x with name := some name }
      some (cur, m)
    else ezxmlAddChild root.heap cur name x.txt.length
  let m ← setTag m xml fun x => { x with attr := attr }
  some { root with heap := m, cur := some xml }

/-- `ezxml_close_tag`; `inr` is its error. -/
def ezxmlCloseTag (root : EzxmlRoot) (name : Text) : Option (EzxmlRoot ⊕ EzxmlRoot) :=
  let error : EzxmlRoot ⊕ EzxmlRoot :=
    .inr (ezxmlErr root ("unexpected closing tag </".toList ++ name ++ ">".toList))
  match root.cur with
  | none => some error
  | some cur => do
      let x ← root.heap.read cur
      if x.name = some name then some (.inl { root with cur := x.parent }) else some error

/-- Whether `ezxml_char_content` takes text at this point. -/
def takesContent (root : EzxmlRoot) : Option Bool :=
  match root.cur with
  | none => some false
  | some cur => do
      let x ← root.heap.read cur
      some x.name.isSome

/-- `ezxml_char_content`, where it takes text: the decoded text goes behind the one that is there. -/
def addContent (root : EzxmlRoot) (s : Text) : Option EzxmlRoot := do
  let cur ← root.cur
  let m ← setTag root.heap cur fun x => { x with txt := x.txt ++ s }
  some { root with heap := m }

end Workload
