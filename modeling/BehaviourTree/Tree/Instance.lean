import BehaviourTree.Tree.Basic

/-!
Instances: independent copies of what an author has built.
-/

namespace BehaviourTree

variable {H : Host}

/-- A copy of a node for a new tree: what was authored, under a new identifier, with the links
`links`. -/
def Node.copy (n : Node H) (id : NodeId) (links : List NodeId) (board : BlackboardId) : Node H :=
  { n with
    id, kind := n.kind.authored.setLinks links, owner := none, blackboard := some board,
    running := false, observers := [] }

/-- Where a link of a copy leads. A link to a node that is not copied gets an identifier that leads
nowhere, so that a copy has as many children as the node it is a copy of. -/
def followCopy (copies : List (NodeId × NodeId)) (id : NodeId) : Minting NodeId :=
  match copies.lookup id with
  | some new => pure new
  | none => mintNodeId

/-- A deep copy of the reachable nodes: new identifiers, the same authored identities, a new empty
blackboard, no owner, no observers and no state of a run. -/
def Tree.instantiate (t : Tree H) : Minting (Tree H) := do
  let copies ← t.reachable.mapM fun id => do pure (id, ← mintNodeId)
  let board ← mintBlackboardId
  let nodes ← t.traverse.mapM fun n => do
    let id ← followCopy copies n.id
    let links ← n.links.mapM (followCopy copies)
    pure (n.copy id links board)
  let root ← followCopy copies t.root
  Tree.ensureRoot ⟨root, nodes, .empty board, none, t.registry, t.seed, choiceRng t.seed none,
    .running, []⟩

end BehaviourTree
