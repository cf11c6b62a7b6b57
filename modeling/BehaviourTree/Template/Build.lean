import BehaviourTree.Template.Basic
import BehaviourTree.Tree.Basic

/-!
From templates to trees and back. A template is accepted when its nodes form a forest under at most
one root, every kind is known, and every node has no more children than its kind takes.
-/

namespace BehaviourTree

variable {H : Host}

namespace TreeTemplate

/-- Goes through the nodes for identities used twice and second roots; gives the root. -/
def findRoot : List NodeId → Option NodeId → List NodeTemplate → Except TreeError (Option NodeId)
  | _, root, [] => .ok root
  | seen, root, a :: rest =>
    if a.guid ∈ seen then .error (.duplicateNode a.guid)
    else if a.isRoot then match root with
      | some first => .error (.multipleRoots first a.guid)
      | none => findRoot (a.guid :: seen) (some a.guid) rest
    else findRoot (a.guid :: seen) root rest

/-- Every child is a node of the template, and none is the root or the parent itself. -/
def checkLinks (known : List NodeId) (root : Option NodeId) (parent : NodeId) :
    List NodeId → Except TreeError Unit
  | [] => .ok ()
  | c :: cs =>
    if c ∉ known then .error (.missingChild parent c)
    else if some c = root ∨ c = parent then .error (.cycle c)
    else checkLinks known root parent cs

/-- A kind takes as many children as the template lists. -/
def checkCount (a : NodeTemplate) (type : NodeType) : Except TreeError Unit :=
  match type.shape with
  | .noChildren => if a.children.isEmpty then .ok () else .error (.childrenOnLeaf a.guid type)
  | .oneChild => if a.children.length ≤ 1 then .ok ()
    else .error (.tooManyChildren a.guid type a.children.length)
  | .manyChildren => .ok ()

/-- The prototype for an authored node. A root needs no registry. -/
def kindOf (registry : Registry H) (a : NodeTemplate) : Except TreeError (NodeKind H) :=
  if a.isRoot then .ok (.root none)
  else match registry.create? a.kind with
    | some k => .ok k
    | none => .error (.unknownNodeKind a.kind)

/-- A kind with the children of an authored node after those it came with. A single slot holds the
authored child alone. -/
def linkKind (a : NodeTemplate) (k : NodeKind H) : NodeKind H :=
  match k.shape with
  | .noChildren => k
  | .oneChild => k.setLinks a.children
  | .manyChildren => k.setLinks (k.links ++ a.children)

/-- The node that an author has described. -/
def buildNode (registry : Registry H) (known : List NodeId) (root : Option NodeId)
    (a : NodeTemplate) : Except TreeError (Node H) := do
  let kind ← kindOf registry a
  checkLinks known root a.guid a.children
  checkCount a kind.nodeType
  pure { Node.make a.guid a.kind (linkKind a kind) with
    name := a.name.getD a.kind, alwaysCheck := a.alwaysCheck, position := a.position }

/-- Gives each child its one parent. -/
def placeChildren : List NodeId → List NodeId → Except TreeError (List NodeId)
  | placed, [] => .ok placed
  | placed, c :: cs =>
    if c ∈ placed then .error (.sharedNode c) else placeChildren (c :: placed) cs

/-- Builds the nodes in turn; `placed` lists the children that have a parent already. -/
def buildNodes (registry : Registry H) (known : List NodeId) (root : Option NodeId) :
    List NodeId → List NodeTemplate → Except TreeError (List (Node H))
  | _, [] => .ok []
  | placed, a :: rest => do
    let n ← buildNode registry known root a
    let placed ← placeChildren placed a.children
    let ns ← buildNodes registry known root placed rest
    pure (n :: ns)

/-- Climbing by parents from `id` comes to `start` in at most the given number of steps. -/
def climbsTo (parents : List (NodeId × NodeId)) (start : NodeId) : Nat → NodeId → Bool
  | 0, _ => false
  | steps+1, id => match parents.lookup id with
    | none => false
    | some p => p = start || climbsTo parents start steps p

/-- The first of `starts` that is its own ancestor. -/
def findLoop? (parents : List (NodeId × NodeId)) (starts : List NodeId) : Option NodeId :=
  starts.find? fun id => climbsTo parents id (parents.length+1) id

/-- The nodes of a template, and its root. `visit` gives the order in which the children are
searched for loops; it decides only which node of a loop is named. -/
def check (visit : List NodeId → List NodeId) (registry : Registry H) (t : TreeTemplate) :
    Except TreeError (List (Node H) × Option NodeId) := do
  let root ← findRoot [] none t.nodes
  let nodes ← buildNodes registry t.guids root [] t.nodes
  match findLoop? t.links (visit (t.links.map (·.1))) with
  | some id => .error (.cycle id)
  | none => pure (nodes, root)

end TreeTemplate

namespace Tree

/-- The tree that an author has described, with identifiers equal to the authored identities. The
order of the search for loops is the caller's. -/
def ofTemplateVia (visit : List NodeId → List NodeId) (registry : Registry H) (t : TreeTemplate) :
    Minting (Except TreeError (Tree H)) :=
  match t.check visit registry with
  | .error e => pure (.error e)
  | .ok (nodes, root) => .ok <$> ofNodes registry nodes root

/-- The tree that an author has described. A template without a root gets an empty one. -/
def ofTemplate (registry : Registry H) (t : TreeTemplate) : Minting (Except TreeError (Tree H)) :=
  ofTemplateVia id registry t

/-- A node as it is authored. Links that lead nowhere are left out. -/
def authorNode (t : Tree H) (n : Node H) : NodeTemplate where
  guid := n.guid
  kind := if n.nodeType = .root then NodeType.root.name else n.typeName
  name := if n.name = n.typeName then none else some n.name
  alwaysCheck := n.alwaysCheck
  position := n.position
  children := n.links.filterMap fun id => (t.node? id).map (·.guid)

/-- The flat list of nodes, links by authored identity. -/
def toTemplate (t : Tree H) : TreeTemplate := ⟨t.nodes.map t.authorNode⟩

end Tree

end BehaviourTree
