import BehaviourTree.Tree.Basic

/-!
The outline of a tree: its nodes from the root down, each as deep as it stands.
-/

namespace BehaviourTree

variable {H : Host}

/-- A line of an outline. There is no node where a link leads nowhere. -/
structure OutlineEntry (H : Host) where
  depth : Nat
  id : NodeId
  node : Option (Node H)

namespace OutlineEntry

/-- The name of a node, its type where the name is another, and whether it is a guard. -/
def nodeText (n : Node H) : String :=
  (if n.name = n.typeName then n.name else s!"{n.name} [{n.typeName}]") ++
    if n.alwaysCheck then " (always check)" else ""

def text (e : OutlineEntry H) : String :=
  "".pushn ' ' (2*e.depth) ++ "- " ++ match e.node with
    | some n => nodeText n
    | none => s!"<missing {e.id.text}>"

end OutlineEntry

namespace Tree

/-- The outline below a node, down to `levels` levels. -/
def outlineFrom (t : Tree H) : Nat → Nat → NodeId → List (OutlineEntry H)
  | 0, _, _ => []
  | levels+1, depth, id =>
    ⟨depth, id, t.node? id⟩ :: (t.children id).flatMap (t.outlineFrom levels (depth+1))

/-- The outline of the whole tree. Where links form no cycle it has no more levels than nodes, and
one for links that lead nowhere. -/
def outline (t : Tree H) : List (OutlineEntry H) := t.outlineFrom (t.size+1) 0 t.root

/-- The nodes that are not part of the tree under the root. -/
def detached (t : Tree H) : List (Node H) :=
  let reachable := t.reachable
  t.nodes.filter fun n => n.id ∉ reachable

/-- The outline in lines, with a list of the detached nodes below it. -/
def outlineLines (t : Tree H) : List String :=
  let detached := t.detached
  t.outline.map (·.text) ++
    if detached.isEmpty then []
    else ["", s!"Detached (not ticked): {detached.length}"] ++
      detached.map fun n => s!"  - {n.name} [{n.typeName}] {n.guid.text}"

end Tree

end BehaviourTree
