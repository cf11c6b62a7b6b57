import BehaviourTree.Tick.Composite

/-!
Updating one node, and through its links the nodes below it.
-/

namespace BehaviourTree

variable {H : Host}

namespace NodeKind

/-- Begins a run of an idle node. -/
def enter (context : LeafContext) (flagged : NodeId → Bool) : NodeKind H → Ticking H (NodeKind H)
  | action a => do
    let (_, a) ← Ticking.leaf context.node (fun _ => .enter) (H.enter context a)
    pure (action a)
  | sequence s => pure (sequence (s.enter flagged))
  | selector s => pure (selector (s.enter flagged))
  | randomChoice cs _ => do pure (randomChoice cs (← pickChild cs))
  | k => pure k

/-- One update of a node that has been entered. -/
def update (context : LeafContext) (ask : NodeId → Ticking H Status) :
    NodeKind H → Ticking H (Status × NodeKind H)
  | root none => do
    Ticking.warn .rootWithoutChild
    pure (.fail, root none)
  | root (some c) => do pure (← ask c, root (some c))
  | action a => do
    let (status, a) ← Ticking.leaf context.node .update (H.update context a)
    pure (status, action a)
  | condition c => do
    let (holds, c) ← Ticking.leaf context.node .check (H.check context c)
    pure (.ofBool holds, condition c)
  | repeater none => do
    Ticking.warn .repeatWithoutChild
    pure (.fail, repeater none)
  | repeater (some c) => do
    let _ ← ask c
    pure (.running, repeater (some c))
  | sequence s => do
    let (status, s) ← s.update ask .success .sequenceWithoutChildren
    pure (status, sequence s)
  | selector s => do
    let (status, s) ← s.update ask .fail .selectorWithoutChildren
    pure (status, selector s)
  | parallel cs => do pure (← updateAll ask cs .success, parallel cs)
  | randomChoice cs none => pure (.fail, randomChoice cs none)
  | randomChoice cs (some c) => do pure (← ask c, randomChoice cs (some c))

/-- Ends a run. -/
def exit (context : LeafContext) : NodeKind H → Ticking H (NodeKind H)
  | action a => do
    let (_, a) ← Ticking.leaf context.node (fun _ => .exit) (H.exit context a)
    pure (action a)
  | k => pure k

/-- After an update: a run that has come to its end is left. -/
def settle (context : LeafContext) (status : Status) (k : NodeKind H) : Ticking H (NodeKind H) :=
  if status.isTerminal then k.exit context else pure k

end NodeKind

/-- The kind that an update works on: an idle node begins a run. -/
def Node.begin (context : LeafContext) (flagged : Stage H → NodeId → Bool) (n : Node H) :
    Ticking H (NodeKind H) :=
  if n.running then pure n.kind else do
    Ticking.emit (.entered n.id)
    n.kind.enter context (flagged (← Ticking.stage))

/-- Updates a node that has been found: it is entered if it was idle, updated, announced, and left
if its run is over. -/
def Node.update (frame : TickContext) (flagged : Stage H → NodeId → Bool)
    (ask : NodeId → Ticking H Status) (n : Node H) : Ticking H (Status × Node H) := do
  let context : LeafContext := ⟨frame, n.id, n.owner⟩
  let kind ← n.begin context flagged
  let (status, kind) ← kind.update context ask
  let observers ← Ticking.announce ⟨frame.tick, n.id, n.guid, status⟩ n.observers
  let kind ← kind.settle context status
  pure (status, { n with kind, observers, running := status.isRunning })

/-- Asks for an update and notes the question and the answer; `path` lists the nodes whose updates
are in progress, the innermost first. -/
def asking (path : List NodeId) (id : NodeId) (m : Ticking H Status) : Ticking H Status := do
  Ticking.emit (.asked path.head? id)
  let status ← m
  Ticking.emit (.answered path.head? id status)
  pure status

/-- The answer for a link that leads nowhere. -/
def unresolved (id : NodeId) : Ticking H Status := do
  Ticking.warn (.unresolved id)
  pure .fail

/-- Asks for the update of the node of an identifier; `ask` updates the children of that node. A
node that is not there, or whose update is in progress, answers `fail`. -/
def updateStep (frame : TickContext) (path : List NodeId) (id : NodeId)
    (ask : NodeId → Ticking H Status) : Ticking H Status :=
  asking path id do
    match (← Ticking.stage).find? path id with
    | none => unresolved id
    | some n =>
      let (status, n) ← n.update frame (fun s c => s.isGuard (id :: path) c) ask
      Ticking.edit (·.restore n)
      pure status

/-- Updates the node of an identifier, and through its links the nodes below it. No update can go
deeper than there are nodes, so `depth` never runs out when it starts as their number. -/
def updateNode (frame : TickContext) : Nat → List NodeId → NodeId → Ticking H Status
  | 0, path, id => asking path id (unresolved id)
  | depth+1, path, id => updateStep frame path id (updateNode frame depth (id :: path))

end BehaviourTree
