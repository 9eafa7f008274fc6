import Workload.Lib.Memory
import Workload.Model.Text

/-!
# `Model.Paths` — the path lists of `string.c`

A path is a doubly linked list of its components. A component that is taken out stays in the list, with
`m_ignore` set. The nodes live in a `Heap`; reading, writing or freeing a node that was freed has no outcome.

Outside the program are the outcomes of the allocations of a parse, by the number of the component. The copied
strings are kept in their node.
-/

namespace Workload.Paths

open Memory

abbrev NodePtr := Nat

/-- `workload_string_node_t`. -/
structure StringNode where
  prev : Option NodePtr
  next : Option NodePtr
  ignore : Bool
  string : Option Text

/-- Whether the two allocations for the component of a number succeed. -/
structure Allocs where
  name : Nat → Bool
  node : Nat → Bool

/-! ## Marks -/

/-- The loop of `..` in `workload_check_ignore_path_node`, for at most `n` nodes. -/
def ignoreTrace : Nat → Option NodePtr → Heap StringNode → Option (Heap StringNode)
  | _, none, m => some m
  | 0, some _, _ => none
  | n + 1, some p, m => do
      let trace ← m.read p
      if trace.ignore then ignoreTrace n trace.prev m
      -- the root is not taken out
      else if workloadCheckString trace.string = [] then some m
      else m.write p { trace with ignore := true }

/-- `workload_check_ignore_path_node`. -/
def workloadCheckIgnorePathNode (m : Heap StringNode) (p : NodePtr) : Option (Heap StringNode) := do
  let current ← m.read p
  let name := workloadCheckString current.string
  if name = [] then
    if current.prev = none then some m else m.write p { current with ignore := true }
  else if name = "..".toList then
    let m ← m.write p { current with ignore := true }
    ignoreTrace m.size current.prev m
  else if name = ".".toList then m.write p { current with ignore := true }
  else some m

/-! ## Parsing -/

/-- The loop of `workload_free_string_node`, for at most `n` nodes. -/
def workloadFreeStringNode : Nat → Option NodePtr → Heap StringNode → Option (Heap StringNode)
  | _, none, m => some m
  | 0, some _, _ => none
  | n + 1, some p, m => do
      let node ← m.read p
      let m ← m.free p
      workloadFreeStringNode n node.next m

/-- `workload_get_word_sep_alloc_c`: the word, and what it leaves in `*s_sep_string`. -/
def workloadGetWordSepAllocC (skipSpace : Bool) (sep : Option Text) (string : Text) : Text × Text :=
  let string := if skipSpace then string.dropWhile isspace else string
  match sep with
  | none => ([], string)
  | some sep => string.span fun c => !sep.contains c

/-- The new node joins the list behind `s_tail`. -/
def linkTail (m : Heap StringNode) (tail : Option NodePtr) (p : NodePtr) : Option (Heap StringNode) :=
  match tail with
  | none => some m
  | some t => do
      let node ← m.read t
      m.write t { node with next := some p }

/-- The loop of `workload_string_to_node_ex`, for less than `fuel` components; `k` of them were read. -/
def stringToNodeLoop (allocs : Allocs) (sep : Text) (isIgnoreTag : Bool) (fuel k : Nat) (string : Text)
    (head tail : Option NodePtr) (m : Heap StringNode) : Option (Option NodePtr × Heap StringNode) :=
  match fuel with
  | 0 => none
  | fuel + 1 =>
      if string = [] then some (head, m)
      else if allocs.name k then
        let (name, string) := workloadGetWordSepAllocC false (some sep) string
        if allocs.node k then do
          let (p, m) := m.alloc { prev := tail, next := none, ignore := false, string := some name }
          let m ← linkTail m tail p
          let head := if tail = none then some p else head
          let m ← if isIgnoreTag then workloadCheckIgnorePathNode m p else some m
          stringToNodeLoop allocs sep isIgnoreTag fuel (k + 1) string.tail head (some p) m
        else do
          let m ← workloadFreeStringNode m.size head m
          some (none, m)
      else some (head, m)

/-- `workload_string_to_node_ex`. -/
def workloadStringToNodeEx (allocs : Allocs) (string sep : Option Text) (isIgnoreTag : Bool)
    (m : Heap StringNode) : Option (Option NodePtr × Heap StringNode) :=
  match string, sep with
  | none, _ => some (none, m)
  | some string, none =>
      if allocs.node 0 then
        let copy := if allocs.name 0 then some string else none
        let (p, m) := m.alloc { prev := none, next := none, ignore := false, string := copy }
        if copy = none then do
          let m ← workloadFreeStringNode m.size (some p) m
          some (none, m)
        else some (some p, m)
      else some (none, m)
  | some string, some sep => stringToNodeLoop allocs sep isIgnoreTag (string.length + 1) 0 string none none m

/-- `workload_path_to_node`. -/
def workloadPathToNode (allocs : Allocs) (path : Option Text) (m : Heap StringNode) :
    Option (Option NodePtr × Heap StringNode) :=
  workloadStringToNodeEx allocs path (some "/\\".toList) true m

/-! ## Appending -/

/-- Whether the list to be appended starts at the root. -/
def startsAtRoot (m : Heap StringNode) : Option NodePtr → Option Bool
  | none => some false
  | some p => do
      let node ← m.read p
      some (decide (node.string = some []))

/-- With `s_override` a list that starts at the root replaces the one before it. -/
def overrideHead (m : Heap StringNode) (head node : Option NodePtr) (override : Bool) :
    Option (Option NodePtr × Heap StringNode) :=
  if override then do
    let root ← startsAtRoot m node
    if root then
      let m ← workloadFreeStringNode m.size head m
      some (none, m)
    else some (head, m)
  else some (head, m)

/-- `while(s_temp->m_next != NULL) { s_temp = s_temp->m_next; }`, for at most `n` nodes. -/
def lastNode : Nat → NodePtr → Heap StringNode → Option NodePtr
  | 0, _, _ => none
  | n + 1, p, m => do
      let node ← m.read p
      match node.next with
      | none => some p
      | some q => lastNode n q m

/-- The node is put behind the list of `head`, or is the list. -/
def linkNode (m : Heap StringNode) : Option NodePtr → Option NodePtr → Option (Option NodePtr × Heap StringNode)
  | head, none => some (head, m)
  | none, some p => do
      let node ← m.read p
      let m ← m.write p { node with prev := none }
      some (some p, m)
  | some head, some p => do
      let t ← lastNode m.size head m
      let node ← m.read p
      let m ← m.write p { node with prev := some t }
      let temp ← m.read t
      let m ← m.write t { temp with next := some p }
      some (some head, m)

/-- The loop under `/* clear ignore */`, for at most `n` nodes. -/
def clearIgnore : Nat → Option NodePtr → Heap StringNode → Option (Heap StringNode)
  | _, none, m => some m
  | 0, some _, _ => none
  | n + 1, some p, m => do
      let temp ← m.read p
      let m ← m.write p { temp with ignore := false }
      clearIgnore n temp.next m

/-- The loop under `/* restrip */`, for at most `n` nodes. -/
def restrip : Nat → Option NodePtr → Heap StringNode → Option (Heap StringNode)
  | _, none, m => some m
  | 0, some _, _ => none
  | n + 1, some p, m => do
      let m ← workloadCheckIgnorePathNode m p
      let temp ← m.read p
      restrip n temp.next m

/-- `workload_append_string_node_ex`. -/
def workloadAppendStringNodeEx (m : Heap StringNode) (head node : Option NodePtr) (override isIgnoreTag : Bool) :
    Option (Option NodePtr × Heap StringNode) := do
  let (head, m) ← overrideHead m head node override
  let (head, m) ← linkNode m head node
  if isIgnoreTag then
    let m ← clearIgnore m.size head m
    let m ← restrip m.size head m
    some (head, m)
  else some (head, m)

/-- `workload_append_path_node`. -/
def workloadAppendPathNode (m : Heap StringNode) (head node : Option NodePtr) (override : Bool) :
    Option (Option NodePtr × Heap StringNode) :=
  workloadAppendStringNodeEx m head node override true

end Workload.Paths
