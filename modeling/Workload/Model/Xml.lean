import Workload.Model.Text

/-!
# `Model.Xml` — the parsed configuration document

An element has a name, attributes, text and child elements in document order. A node pointer of the source
stands for an element together with the siblings after it (`->ordered`), so `Node` is the list of them;
NULL is the empty list. A configuration file is below 4 MiB and an element takes at least four bytes
(`<a/>`), which bounds the elements of a `Document`.
-/

namespace Workload

inductive Xml where
  | element (name : Text) (attrs : List (Text × Text)) (txt : Text) (children : List Xml)

namespace Xml

def name : Xml → Text
  | element n _ _ _ => n

def attrs : Xml → List (Text × Text)
  | element _ a _ _ => a

def txt : Xml → Text
  | element _ _ t _ => t

def children : Xml → List Xml
  | element _ _ _ c => c

mutual

/-- The number of elements of a tree. -/
def size : Xml → Nat
  | element _ _ _ children => 1 + sizes children

/-- The number of elements of a list of trees. -/
def sizes : List Xml → Nat
  | [] => 0
  | x :: xs => size x + sizes xs

end

end Xml

/-- A node pointer: the element it names and the siblings behind it. -/
abbrev Node := List Xml

/-- What `workload_open_xml_from_file` can return. -/
structure Document where
  root : Xml
  small : root.size < 2 ^ 20

/-- `workload_xml_tag_data`: the text, empty for NULL. -/
def workloadXmlTagData : Node → Text
  | [] => []
  | x :: _ => x.txt

/-- `workload_xml_tag_attr_value`: the first attribute of that name. -/
def workloadXmlTagAttrValue (node : Node) (attrName : Text) : Option Text :=
  match node with
  | [] => none
  | x :: _ => (x.attrs.find? fun a => a.1 == attrName).map (·.2)

/-- From a list of siblings, the first with that name. -/
def seekNode (tagName : Text) (node : Node) : Node := node.dropWhile fun x => x.name != tagName

/-- `workload_xml_next_node_ex` with a tag name. -/
def workloadXmlNextNodeEx (node : Node) (tagName : Text) : Node := seekNode tagName node.tail

/-- `workload_xml_sub_node_ex` with a tag name. -/
def workloadXmlSubNodeEx (node : Node) (subTagName : Text) : Node :=
  match node with
  | [] => []
  | x :: _ => seekNode subTagName x.children

/-- The loop of `workload_get_xml_node` over the components of a path. -/
def getXmlNode : List Text → Node → Node
  | [], _ => []
  | [n], level => seekNode n level
  | n :: ns, level =>
      match seekNode n level with
      | [] => []
      | x :: _ => getXmlNode ns x.children

/-- The nodes the loop `for(; node; node = next_node_ex(node, name))` visits from `node` on. -/
def nodesFrom (tagName : Text) : Nat → Node → List Node
  | 0, _ => []
  | _, [] => []
  | fuel + 1, x :: rest => (x :: rest) :: nodesFrom tagName fuel (workloadXmlNextNodeEx (x :: rest) tagName)

end Workload
