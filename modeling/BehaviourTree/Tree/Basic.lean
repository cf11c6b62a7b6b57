import BehaviourTree.Registry

/-!
A tree: its nodes in creation order, linked by identifiers under one root, and what belongs to all
of them.
-/

namespace BehaviourTree

/-- A root and every node made for it, attached or not, with one blackboard. -/
structure Tree (H : Host) where
  root : NodeId
  /-- In creation order. -/
  nodes : List (Node H)
  blackboard : Blackboard H.Value
  owner : Option AgentHandle
  registry : Registry H
  seed : UInt64
  rng : SplitMix64
  /-- The answer of the last tick, `running` before the first. -/
  status : Status
  /-- Observers of every node. -/
  observers : List H.Observer

namespace Tree

variable {H : Host}

/-- The stream of random choices among all the streams of an agent. -/
def choiceStream : UInt64 := 0xA7B0C401CE000001

/-- The random stream that a tree starts with. Without an owner it is that of agent 0. -/
def choiceRng (seed : UInt64) (owner : Option AgentHandle) : SplitMix64 :=
  ⟨deriveSeed seed ((owner.map (·.number)).getD 0) choiceStream⟩

def ids (t : Tree H) : List NodeId := t.nodes.map (·.id)

def size (t : Tree H) : Nat := t.nodes.length

def isEmpty (t : Tree H) : Bool := t.nodes.isEmpty

def node? (t : Tree H) (id : NodeId) : Option (Node H) := t.nodes.find? (·.id = id)

def contains (t : Tree H) (id : NodeId) : Bool := (t.node? id).isSome

/-- The children of a node in the order in which they run; an unknown node has none. -/
def children (t : Tree H) (id : NodeId) : List NodeId := ((t.node? id).map (·.links)).getD []

/-- The first node in creation order that links to `id`. -/
def parentOf? (t : Tree H) (id : NodeId) : Option NodeId :=
  (t.nodes.find? fun n => id ∈ n.links).map (·.id)

/-- Climbing from a node by parents meets `target`. A climb of more steps than there are nodes is on
a cycle and counts as meeting it. -/
def climbMeets (t : Tree H) (target : NodeId) : Nat → NodeId → Bool
  | 0, _ => true
  | steps+1, id => match t.parentOf? id with
    | none => false
    | some p => p = target || t.climbMeets target steps p

/-- The first node is a proper ancestor of the second. -/
def isAncestor (t : Tree H) (ancestor id : NodeId) : Bool :=
  t.climbMeets ancestor (t.size+1) id

/-- How many links there are in all. -/
def linkCount (t : Tree H) : Nat := (t.nodes.flatMap (·.links)).length

/-- The nodes that a depth-first walk meets, parents before children: `stack` holds the links still
to be followed and `seen` what has been met, the last first. Every link is followed at most once. -/
def walk (t : Tree H) : Nat → List NodeId → List NodeId → List NodeId
  | 0, _, seen => seen.reverse
  | _+1, [], seen => seen.reverse
  | steps+1, id :: stack, seen => match t.node? id with
    | none => t.walk steps stack seen
    | some n =>
      if id ∈ seen then t.walk steps stack seen else t.walk steps (n.links ++ stack) (id :: seen)

/-- The nodes that can be reached from the root, depth first and parents before children. -/
def reachable (t : Tree H) : List NodeId := t.walk (t.linkCount+1) [t.root] []

/-- The reachable nodes themselves. -/
def traverse (t : Tree H) : List (Node H) := t.reachable.filterMap t.node?

/-- Puts a node at the end of the creation order, or in the place of the one with its identifier. -/
def insert (t : Tree H) (n : Node H) : Tree H :=
  if t.contains n.id then { t with nodes := t.nodes.map fun m => if m.id = n.id then n else m }
  else { t with nodes := t.nodes ++ [n] }

/-- Puts a new empty root in place if the present one is gone. -/
def ensureRoot (t : Tree H) : Minting (Tree H) :=
  if t.contains t.root then pure t else do
    let id ← mintNodeId
    let root := { Node.make id NodeType.root.name (.root none) with
      owner := t.owner, blackboard := some t.blackboard.id }
    pure { t.insert root with root := id }

/-- Starts the random stream anew for the tree's seed and owner. -/
def reseed (t : Tree H) : Tree H := { t with rng := choiceRng t.seed t.owner }

/-- A tree of given nodes on a new blackboard. It gets an empty root if none is named. -/
def ofNodes (registry : Registry H) (nodes : List (Node H)) (root : Option NodeId) :
    Minting (Tree H) := do
  let board ← mintBlackboardId
  let root ← match root with
    | some id => pure id
    | none => mintNodeId
  let nodes := nodes.map fun n => { n with blackboard := some board }
  ensureRoot ⟨root, nodes, .empty board, none, registry, 0, choiceRng 0 none, .running, []⟩

/-- A tree of nothing but a root. -/
def new (registry : Registry H) : Minting (Tree H) := ofNodes registry [] none

/-- A developer's view, with some parts left out. -/
def describe (idText : NodeId → String) (boardText : BlackboardId → String)
    (typeName : H.ValueType → String) (t : Tree H) : String :=
  let owner := t.owner.map fun a => "AgentHandle(" ++ toString a.number ++ ")"
  Text.record "BehaviourTree" [Text.part "root" ("NodeId(" ++ idText t.root ++ ")"),
    Text.part "nodes" (toString t.size), Text.part "owner" (Text.optional owner),
    Text.part "status" t.status.name,
    Text.part "blackboard" (t.blackboard.describe boardText typeName), ".."]

end Tree

end BehaviourTree
