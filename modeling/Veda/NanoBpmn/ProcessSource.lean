import Veda.Lib.HashMap

set_option autoImplicit false

/-!
# Process definitions

The tree of a process definition and the queries on it. A node is given by its identifier; of two
nodes with one identifier the later one is found, and all nodes without an identifier share the empty
one.

## Main definitions

* `NanoBpmn.XNode`, `NanoBpmn.IndexedNodeTree` — the tree.
* `NanoBpmn.IndexedNodeTree.getIdxOfId`, `NanoBpmn.XNode.getAttribute`,
  `NanoBpmn.XNode.getIdxsOfPath`, `NanoBpmn.XNode.getValuesOfTag` — the queries.
-/

namespace Veda.NanoBpmn

open Veda.Lib

/-- A node of a process definition with its subtree. -/
inductive XNode
  | mk (id : String) (tag : String) (attributes : HashMap String String) (children : List XNode)

namespace XNode

def id : XNode → String
  | mk id _ _ _ => id

/-- The type of an element is its tag. -/
def tag : XNode → String
  | mk _ tag _ _ => tag

def attributes : XNode → HashMap String String
  | mk _ _ attributes _ => attributes

def children : XNode → List XNode
  | mk _ _ _ children => children

/-- `get_attribute_of_idx`. -/
def getAttribute (node : XNode) (key : String) : Except String String :=
  match node.attributes.lookup key with
  | some v => .ok v
  | none => .error ("[" ++ key ++ "] not found")

/-- The children with a tag. -/
def childrenOf (node : XNode) (tag : String) : List XNode :=
  node.children.filter fun c => c.tag = tag

/-- `get_idxs_of_path`: at the last tag of the path all children with it, before it the first one. A
tag without a child leaves the node as it is. -/
def getIdxsOfPath (last : String) : XNode → List String → List XNode
  | _, [] => []
  | node, p :: path =>
    let found := node.childrenOf p
    if p = last then found ++ getIdxsOfPath last (found.getLast?.getD node) path
    else getIdxsOfPath last (found.head?.getD node) path

/-- `get_values_of_tag`: the texts of the children with a tag. -/
def getValuesOfTag (node : XNode) (tag : String) : List String :=
  (node.childrenOf tag).filterMap fun c => c.attributes.lookup "value"

end XNode

/-- A process definition: its identifier, and its nodes under theirs. -/
structure IndexedNodeTree where
  id : String
  id2nodeId : HashMap String XNode

namespace IndexedNodeTree

def getIdxOfId (nt : IndexedNodeTree) (id : String) : Except String XNode :=
  match nt.id2nodeId.lookup id with
  | some n => .ok n
  | none => .error "Not found"

/-- `get_idx_of_type`, in the order in which the identifiers are visited. -/
def getIdxOfType (nt : IndexedNodeTree) (π : IterOrder String) (type : String) : List XNode :=
  (nt.id2nodeId.iter π).filterMap fun e => if e.2.tag = type then some e.2 else none

end IndexedNodeTree

end Veda.NanoBpmn
