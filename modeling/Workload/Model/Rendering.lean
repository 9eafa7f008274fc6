import Workload.Lib.Blocks
import Workload.Model.Paths

/-!
# `Model.Rendering` — a path list as a text, from `string.c`

`workload_node_to_string` goes over a list twice: it computes the size of the text, and then writes it into memory
of that size. `sprintf` writes each piece with a terminator, which the next piece overwrites; a NULL name has no
outcome there. With `s_strip` both passes leave out the nodes with a mark. The length of a name is assumed to be
in the range of what `sprintf` returns; a name of 2 GiB or more is left out.
-/

namespace Workload.Paths

open Blocks Memory

/-- The loop of `s_trace2`: from a pointer on the first node that is written, for at most `n` nodes. -/
def nextWritten (strip : Bool) (m : Heap StringNode) : Nat → Option NodePtr → Option (Option NodePtr)
  | _, none => some none
  | 0, some _ => none
  | n + 1, some p =>
      if strip then do
        let trace2 ← m.read p
        if trace2.ignore = false then some (some p) else nextWritten strip m n trace2.next
      else some (some p)

/-- The first pass, for at most `n` nodes: `s_alloc_size` from a node on. -/
def sizeLoop (insertString : Text) (strip : Bool) (m : Heap StringNode) :
    Nat → Option NodePtr → Nat → Option Nat
  | _, none, allocSize => some allocSize
  | 0, some _, _ => none
  | n + 1, some p, allocSize => do
      let trace ← m.read p
      if strip = true ∧ trace.ignore = true then sizeLoop insertString strip m n trace.next allocSize
      else
        let trace2 ← nextWritten strip m m.size trace.next
        let nameSize := (workloadCheckString trace.string).length
        let allocSize :=
          if trace2 = none then allocSize + ((if nameSize ≤ 0 then insertString.length else nameSize) + 1)
          else allocSize + (nameSize + insertString.length)
        sizeLoop insertString strip m n trace.next allocSize

/-- What is printed for a node when `s_trace2` is the node written behind it. -/
def nodeText (insertString : Text) (trace2 : Option NodePtr) (string : Option Text) : Option Text :=
  if trace2 = none then
    if (workloadCheckString string).length ≤ 0 then some insertString else string
  else string.map fun string => string ++ insertString

/-- The second pass, for at most `n` nodes: `s_result` is written from `s_alloc_size` on. -/
def writeLoop (insertString : Text) (strip : Bool) (m : Heap StringNode) :
    Nat → Option NodePtr → Nat → Block Char → Option (Block Char)
  | _, none, _, result => some result
  | 0, some _, _, _ => none
  | n + 1, some p, allocSize, result => do
      let trace ← m.read p
      if strip = true ∧ trace.ignore = true then writeLoop insertString strip m n trace.next allocSize result
      else
        let trace2 ← nextWritten strip m m.size trace.next
        let text ← nodeText insertString trace2 trace.string
        let result ← putString result allocSize text
        writeLoop insertString strip m n trace.next (allocSize + text.length) result

/-- `workload_node_to_string`; `malloc` says whether memory of a size is there. -/
def workloadNodeToString (malloc : Nat → Bool) (m : Heap StringNode) (node : Option NodePtr)
    (insertString : Option Text) (strip : Bool) : Option (Option (Block Char)) :=
  if node = none then some none
  else do
    let insertString := workloadCheckString insertString
    let allocSize ← sizeLoop insertString strip m m.size node 0
    if malloc allocSize then do
      let result ← writeLoop insertString strip m m.size node 0 (unsetBlock Char allocSize)
      some (some result)
    else some none

/-- `workload_node_to_path`. -/
def workloadNodeToPath (malloc : Nat → Bool) (m : Heap StringNode) (node : Option NodePtr) (strip : Bool) :
    Option (Option (Block Char)) :=
  workloadNodeToString malloc m node (some "/".toList) strip

/-- `workload_copy_path_node`. -/
def workloadCopyPathNode (malloc : Nat → Bool) (allocs : Allocs) (m : Heap StringNode) (node : Option NodePtr) :
    Option (Option NodePtr × Heap StringNode) := do
  match ← workloadNodeToString malloc m node (some "/".toList) false with
  | none => some (none, m)
  | some result => do
      let path ← getString result
      workloadStringToNodeEx allocs (some path) (some "/\\".toList) true m

end Workload.Paths
