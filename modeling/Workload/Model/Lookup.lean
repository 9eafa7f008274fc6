import Workload.Model.Ezxml
import Workload.Model.Paths

/-!
# `Model.Lookup` — `workload_get_xml_node` of `xml.c`

The path is parsed into a list of components, whose marks are not looked at. The loop goes through the components
and the levels of the tree at once; it passes over empty components, and it stores the result when the component it
has found is the last node of the list.
-/

namespace Workload

open Memory Paths

/-- The loop, for at most `n` nodes of the path: `s_xml_root`, `s_trace_node` and `s_result`. -/
def xmlNodeLoop (m : Heap StringNode) : Nat → Node → Option NodePtr → Node → Option Node
  | _, [], _, result => some result
  | _, _ :: _, none, result => some result
  | 0, _ :: _, some _, _ => none
  | n + 1, x :: rest, some p, result => do
      let trace ← m.read p
      let name := workloadCheckString trace.string
      if name = [] then xmlNodeLoop m n (x :: rest) trace.next result
      else
        match seekNode name (x :: rest) with
        | [] => some result
        | this :: siblings =>
            xmlNodeLoop m n this.children trace.next (if trace.next = none then this :: siblings else result)

/-- `workload_get_xml_node` on the root level of a document, NULL for no handle; the nodes of the path are freed. -/
def workloadGetXmlNode (allocs : Allocs) (handle : Option Node) (path : Option Text) (m : Heap StringNode) :
    Option (Node × Heap StringNode) :=
  match handle with
  | none => some ([], m)
  | some xmlRoot => do
      let (pathNode, m) ← workloadPathToNode allocs path m
      if pathNode = none then some (xmlRoot, m)
      else
        let result ← xmlNodeLoop m m.size xmlRoot pathNode []
        let m ← workloadFreeStringNode m.size pathNode m
        some (result, m)

/-- The loop on the pointers of the tags. -/
def xmlTagLoop (m : Heap StringNode) (tags : Heap Ezxml) :
    Nat → Option TagPtr → Option NodePtr → Option TagPtr → Option (Option TagPtr)
  | _, none, _, result => some result
  | _, some _, none, result => some result
  | 0, some _, some _, _ => none
  | n + 1, some xmlRoot, some p, result => do
      let trace ← m.read p
      let name := workloadCheckString trace.string
      if name = [] then xmlTagLoop m tags n (some xmlRoot) trace.next result
      else
        match ← orderedLoop tags name tags.size (some xmlRoot) with
        | none => some result
        | some this => do
            let x ← tags.read this
            xmlTagLoop m tags n x.child trace.next (if trace.next = none then some this else result)

/-- `workload_get_xml_node` on the pointers of the tags. -/
def workloadGetXmlTag (allocs : Allocs) (tags : Heap Ezxml) (handle : Option TagPtr) (path : Option Text)
    (m : Heap StringNode) : Option (Option TagPtr × Heap StringNode) :=
  match handle with
  | none => some (none, m)
  | some xmlRoot => do
      let (pathNode, m) ← workloadPathToNode allocs path m
      if pathNode = none then some (some xmlRoot, m)
      else
        let result ← xmlTagLoop m tags m.size (some xmlRoot) pathNode none
        let m ← workloadFreeStringNode m.size pathNode m
        some (result, m)

end Workload
