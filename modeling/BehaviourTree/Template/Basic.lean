import BehaviourTree.Identity
import BehaviourTree.Kind
import BehaviourTree.Vector

/-!
Authored trees as an editor saves them: a flat list of nodes that name their children.
-/

namespace BehaviourTree

/-- An authored node. -/
structure NodeTemplate where
  guid : NodeId
  /-- A name in a registry, or that of the root type. -/
  kind : String
  /-- What the node is called, where that is not its kind. -/
  name : Option String
  alwaysCheck : Bool
  position : Vec2
  children : List NodeId
deriving BEq, Inhabited

/-- An authored tree. -/
structure TreeTemplate where
  nodes : List NodeTemplate
deriving BEq, Inhabited

namespace NodeTemplate

/-- The node is authored as the root. -/
def isRoot (a : NodeTemplate) : Bool := a.kind == NodeType.root.name

end NodeTemplate

namespace TreeTemplate

def guids (t : TreeTemplate) : List NodeId := t.nodes.map (·.guid)

/-- All links, each as the child and the parent that lists it. -/
def links (t : TreeTemplate) : List (NodeId × NodeId) :=
  t.nodes.flatMap fun a => a.children.map fun c => (c, a.guid)

/-- The root that the template names, the first of them. -/
def root? (t : TreeTemplate) : Option NodeId := (t.nodes.find? (·.isRoot)).map (·.guid)

end TreeTemplate

/-- Why a template is no tree. -/
inductive TreeError where
  | unknownNodeKind (kind : String)
  | duplicateNode (node : NodeId)
  | multipleRoots (first second : NodeId)
  | missingChild (parent child : NodeId)
  | childrenOnLeaf (node : NodeId) (type : NodeType)
  | tooManyChildren (node : NodeId) (type : NodeType) (count : Nat)
  | sharedNode (node : NodeId)
  | cycle (node : NodeId)
deriving DecidableEq

namespace TreeError

/-- Wording of an error, given the texts of identifiers. -/
def message (idText : NodeId → String) : TreeError → String
  | unknownNodeKind kind => s!"unknown node kind `{kind}`"
  | duplicateNode node => s!"node {idText node} appears more than once"
  | multipleRoots a b => s!"more than one root node ({idText a} and {idText b})"
  | missingChild parent child => s!"node {idText parent} references missing child {idText child}"
  | childrenOnLeaf node type => s!"{type.name} node {idText node} cannot have children"
  | tooManyChildren node type count =>
    s!"{type.name} node {idText node} takes one child, found {count}"
  | sharedNode node => s!"node {idText node} is attached to more than one parent"
  | cycle node => s!"node {idText node} is part of a cycle"

/-- The name of the cause. -/
def name : TreeError → String
  | unknownNodeKind _ => "UnknownNodeKind"
  | duplicateNode _ => "DuplicateNode"
  | multipleRoots _ _ => "MultipleRoots"
  | missingChild _ _ => "MissingChild"
  | childrenOnLeaf _ _ => "ChildrenOnLeaf"
  | tooManyChildren _ _ _ => "TooManyChildren"
  | sharedNode _ => "SharedNode"
  | cycle _ => "Cycle"

end TreeError

end BehaviourTree
