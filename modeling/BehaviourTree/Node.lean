import BehaviourTree.Host
import BehaviourTree.Kind
import BehaviourTree.Vector

/-!
Nodes: what each kind of node carries, and the links to its children.
-/

namespace BehaviourTree

/-- The state of a composite that works through its children one after the other. -/
structure Series where
  /-- The children in the order of their turns. -/
  children : List NodeId
  /-- Children that are polled ahead of the current one. The list only grows. -/
  guards : List NodeId
  /-- Whose turn it is. -/
  current : Nat
deriving DecidableEq, Inhabited

/-- A series that was never entered. -/
def Series.idle (children : List NodeId) : Series := ⟨children, [], 0⟩

/-- A kind of node with the state that it needs. -/
inductive NodeKind (H : Host) where
  | root (child : Option NodeId)
  | action (leaf : H.Action)
  | condition (leaf : H.Condition)
  | repeater (child : Option NodeId)
  | sequence (series : Series)
  | selector (series : Series)
  | parallel (children : List NodeId)
  | randomChoice (children : List NodeId) (selected : Option NodeId)

namespace NodeKind

variable {H : Host}

def nodeType : NodeKind H → NodeType
  | root _ => .root
  | action _ => .action
  | condition _ => .condition
  | repeater _ => .repeater
  | sequence _ => .sequence
  | selector _ => .selector
  | parallel _ => .parallel
  | randomChoice _ _ => .randomChoice

def shape (k : NodeKind H) : NodeShape := k.nodeType.shape

/-- The children in the order in which they run. A leaf has none. -/
def links : NodeKind H → List NodeId
  | root c | repeater c => c.toList
  | action _ | condition _ => []
  | sequence s | selector s => s.children
  | parallel cs | randomChoice cs _ => cs

/-- The children that a node polls as guards. -/
def guards : NodeKind H → List NodeId
  | sequence s | selector s => s.guards
  | _ => []

/-- The same node with other children. A single-child kind keeps the first, a leaf none. -/
def setLinks (k : NodeKind H) (cs : List NodeId) : NodeKind H :=
  match k with
  | root _ => root cs.head?
  | repeater _ => repeater cs.head?
  | action a => action a
  | condition c => condition c
  | sequence s => sequence { s with children := cs }
  | selector s => selector { s with children := cs }
  | parallel _ => parallel cs
  | randomChoice _ p => randomChoice cs p

/-- The part of a node that was authored: composites forget where they were. A leaf's state is part
of what was authored. -/
def authored : NodeKind H → NodeKind H
  | sequence s => sequence (.idle s.children)
  | selector s => selector (.idle s.children)
  | randomChoice cs _ => randomChoice cs none
  | k => k

/-- A kind that carries no links yet, as the factories of a registry should make them. -/
def LinkFree (k : NodeKind H) : Prop := k.links = []

/-- A control node without children, for a type that is not a leaf. -/
def ofType? : NodeType → Option (NodeKind H)
  | .root => some (root none)
  | .repeater => some (repeater none)
  | .sequence => some (sequence (.idle []))
  | .selector => some (selector (.idle []))
  | .parallel => some (parallel [])
  | .randomChoice => some (randomChoice [] none)
  | .action | .condition => none

/-- A developer's view: the type and the links. -/
def describe (idText : NodeId → String) (k : NodeKind H) : String :=
  let link (id : NodeId) := "NodeId(" ++ idText id ++ ")"
  Text.record k.nodeType.name <| match k.shape with
    | .noChildren => []
    | .oneChild => [Text.part "child" (Text.optional (k.links.head?.map link))]
    | .manyChildren => [Text.part "children" (Text.listing (k.links.map link))]

end NodeKind

/-- One unit of behaviour in a tree. -/
structure Node (H : Host) where
  id : NodeId
  /-- The authored identity. Copies of a node share it. -/
  guid : NodeId
  /-- The name under which the registry made the node. -/
  typeName : String
  name : String
  kind : NodeKind H
  /-- Marks the node as a guard of its parent. -/
  alwaysCheck : Bool
  position : Vec2
  owner : Option AgentHandle
  blackboard : Option BlackboardId
  /-- The last update returned `running`. -/
  running : Bool
  observers : List H.Observer

namespace Node

variable {H : Host}

/-- A node as it is made, with its type's name for a name. -/
def make (id : NodeId) (typeName : String) (kind : NodeKind H) : Node H :=
  ⟨id, id, typeName, typeName, kind, false, .zero, none, none, false, []⟩

def nodeType (n : Node H) : NodeType := n.kind.nodeType

def links (n : Node H) : List NodeId := n.kind.links

/-- A developer's view, with some parts left out. -/
def describe (idText : NodeId → String) (n : Node H) : String :=
  let id (i : NodeId) := "NodeId(" ++ idText i ++ ")"
  Text.record "Node" [Text.part "id" (id n.id), Text.part "guid" (id n.guid),
    Text.part "name" (Text.quoted n.name), Text.part "kind" (n.kind.describe idText),
    Text.part "always_check" (toString n.alwaysCheck), Text.part "running" (toString n.running),
    ".."]

end Node

end BehaviourTree
