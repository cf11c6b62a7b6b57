import BehaviourTree.Decimal.Binary
import BehaviourTree.Sorting.Keys
import BehaviourTree.Tree.Basic

/-!
Editing a tree. An edit that does not apply is refused and there is no new tree.
-/

namespace BehaviourTree

/-- Why a node cannot be attached. -/
inductive AttachRefusal where
  | unknownOrSelf
  | alreadyPlaced
  | leafParent
deriving DecidableEq

def AttachRefusal.message : AttachRefusal → String
  | unknownOrSelf => "add_child ignored: unknown node or self link"
  | alreadyPlaced => "add_child ignored: node already placed in the tree"
  | leafParent => "add_child ignored: leaf nodes take no children"

namespace Tree

variable {H : Host}

/-- Adds a new node with the tree's owner and blackboard. -/
def addNamed (t : Tree H) (typeName : String) (kind : NodeKind H) : Minting (NodeId × Tree H) := do
  let id ← mintNodeId
  let n := { Node.make id typeName kind with owner := t.owner, blackboard := some t.blackboard.id }
  pure (id, t.insert n)

/-- Adds a node that was built in code, under the name of its type. -/
def add (t : Tree H) (kind : NodeKind H) : Minting (NodeId × Tree H) :=
  t.addNamed kind.nodeType.name kind

/-- Makes a node of a registered kind. -/
def create? (t : Tree H) (kind : String) : Minting (Option (NodeId × Tree H)) :=
  match t.registry.create? kind with
  | some k => some <$> t.addNamed kind k
  | none => pure none

/-- What the log says when the registry does not know a kind. -/
def createRefusal : String := "cannot create node of unregistered kind"

/-- Removes a node. Links to it stay and lead nowhere; a removed root is replaced by an empty
one. -/
def delete? (t : Tree H) (id : NodeId) : Minting (Option (Tree H)) :=
  if t.contains id then some <$> ensureRoot { t with nodes := t.nodes.filter (·.id ≠ id) }
  else pure none

/-- Edits one node. -/
def editNode? (t : Tree H) (id : NodeId) (f : Node H → Node H) : Option (Tree H) :=
  if t.contains id then
    some { t with nodes := t.nodes.map fun n => if n.id = id then f n else n }
  else none

/-- Gives a node other children. -/
def relink (t : Tree H) (id : NodeId) (cs : List NodeId) : Tree H :=
  (t.editNode? id fun n => { n with kind := n.kind.setLinks cs }).getD t

/-- Attaches a child. A parent with one slot lets go of the child it had; a parent with a list gets
the child at its end. -/
def attach (t : Tree H) (parent child : NodeId) : Except AttachRefusal (Tree H) :=
  match t.node? parent with
  | none => .error .unknownOrSelf
  | some p =>
    if parent = child ∨ ¬ t.contains child then .error .unknownOrSelf
    else if child = t.root ∨ (t.parentOf? child).isSome ∨ t.isAncestor child parent then
      .error .alreadyPlaced
    else match p.kind.shape with
      | .noChildren => .error .leafParent
      | .oneChild => .ok (t.relink parent [child])
      | .manyChildren => .ok (t.relink parent (p.links ++ [child]))

/-- Detaches a child, at its first place in the list. -/
def detach? (t : Tree H) (parent child : NodeId) : Option (Tree H) :=
  if child ∈ t.children parent then some (t.relink parent ((t.children parent).erase child))
  else none

def rename? (t : Tree H) (id : NodeId) (name : String) : Option (Tree H) :=
  t.editNode? id fun n => { n with name }

/-- Moves a node on the canvas. -/
def move? (t : Tree H) (id : NodeId) (position : Vec2) : Option (Tree H) :=
  t.editNode? id fun n => { n with position }

/-- Flags a node as a guard, or not. Its parent takes notice when it is next entered. -/
def setAlwaysCheck? (t : Tree H) (id : NodeId) (alwaysCheck : Bool) : Option (Tree H) :=
  t.editNode? id fun n => { n with alwaysCheck }

/-- Lets an observer listen to one node. -/
def subscribe? (t : Tree H) (id : NodeId) (o : H.Observer) : Option (Tree H) :=
  t.editNode? id fun n => { n with observers := n.observers ++ [o] }

/-- Lets an observer listen to every node. -/
def subscribeAll (t : Tree H) (o : H.Observer) : Tree H :=
  { t with observers := t.observers ++ [o] }

/-- Where a node stands from left to right, if its position says so. A link that leads nowhere is to
the right of everything. -/
def abscissa? (t : Tree H) (id : NodeId) : Option Int :=
  match t.node? id with
  | some n => Decimal.rank? n.position.x
  | none => some Decimal.infinityRank

/-- Links in the order of the nodes from left to right. -/
def sortLinks (t : Tree H) (links : List NodeId) : Sorting.Attempt NodeId (List NodeId) :=
  Sorting.sortByKey t.abscissa? links

/-- Orders the children of a composite from left to right. Where that is found to be impossible they
stay as they stood then. -/
def sortChildren? (t : Tree H) (parent : NodeId) : Option (Tree H) :=
  match t.node? parent with
  | none => none
  | some p => match p.kind.shape with
    | .manyChildren => some (t.relink parent (t.sortLinks p.links).items)
    | _ => none

/-- The children of a node cannot be ordered, because some positions are not numbers. -/
def sortFails (t : Tree H) (parent : NodeId) : Bool :=
  match t.sortLinks (t.children parent) with
  | .ok _ => false
  | .error _ => true

def setSeed (t : Tree H) (seed : UInt64) : Tree H := reseed { t with seed }

/-- Hands the reachable nodes to an agent. -/
def setOwner (t : Tree H) (agent : AgentHandle) : Tree H :=
  let mine := t.reachable
  let hand (n : Node H) : Node H :=
    if n.id ∈ mine then { n with owner := some agent, blackboard := some t.blackboard.id } else n
  reseed { t with owner := some agent, nodes := t.nodes.map hand }

end Tree

end BehaviourTree
