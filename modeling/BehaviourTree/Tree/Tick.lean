import BehaviourTree.Tick.Update
import BehaviourTree.Tree.Basic

/-!
Evaluating a tree once.
-/

namespace BehaviourTree

variable {H : Host}

/-- What a tick leaves behind. -/
structure Ticked (H : Host) where
  tree : Tree H
  world : H.World
  audience : H.Audience
  trace : Trace H

namespace Tree

/-- The stage that a tree brings to a tick. -/
def stage (t : Tree H) (world : H.World) (audience : H.Audience) : Stage H :=
  ⟨t.nodes, ⟨t.blackboard, t.rng, world⟩, t.observers, audience⟩

/-- Updates the root. Its answer becomes the status of the tree. -/
def tick (t : Tree H) (frame : TickContext) (world : H.World) (audience : H.Audience) : Ticked H :=
  let p := updateNode frame t.size [] t.root (t.stage world audience)
  let shared := p.stage.shared
  let tree := { t with
    nodes := p.stage.nodes, blackboard := shared.blackboard, rng := shared.rng,
    status := p.answer, observers := p.stage.observers }
  ⟨tree, shared.world, p.stage.audience, p.trace⟩

/-- Ticks in a row, one per frame. -/
def run (t : Tree H) (world : H.World) (audience : H.Audience) :
    List TickContext → Ticked H × List Status
  | [] => (⟨t, world, audience, []⟩, [])
  | f :: fs =>
    let a := t.tick f world audience
    let (b, rest) := a.tree.run a.world a.audience fs
    (⟨b.tree, b.world, b.audience, a.trace ++ b.trace⟩, a.tree.status :: rest)

end Tree

end BehaviourTree
