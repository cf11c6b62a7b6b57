import BehaviourTree.Tick.Trace

/-!
The state that a tick threads through the nodes, and the computations over it.
-/

namespace BehaviourTree

/-- What a tick works on: the nodes in creation order, what the leaves share, and the observers of
the whole tree with their audience. -/
structure Stage (H : Host) where
  nodes : List (Node H)
  shared : H.Shared
  observers : List H.Observer
  audience : H.Audience

namespace Stage

variable {H : Host}

/-- The node of an identifier, unless its update is in progress: `path` lists the nodes whose
updates are, the innermost first. -/
def find? (s : Stage H) (path : List NodeId) (id : NodeId) : Option (Node H) :=
  if id ∈ path then none else s.nodes.find? (·.id = id)

/-- The node is there to be polled as a guard. -/
def isGuard (s : Stage H) (path : List NodeId) (id : NodeId) : Bool :=
  (s.find? path id).any (·.alwaysCheck)

/-- Writes a node back to its place. -/
def restore (s : Stage H) (n : Node H) : Stage H :=
  { s with nodes := s.nodes.map fun m => if m.id = n.id then n else m }

def setRng (s : Stage H) (rng : SplitMix64) : Stage H := { s with shared := { s.shared with rng } }

end Stage

/-- What a computation leaves: its answer, the stage after it and the trace of it. -/
structure Play (H : Host) (α : Type) where
  answer : α
  stage : Stage H
  trace : Trace H

/-- A computation within a tick. -/
def Ticking (H : Host) (α : Type) : Type := Stage H → Play H α

namespace Ticking

variable {H : Host}

instance : Monad (Ticking H) where
  pure a := fun s => ⟨a, s, []⟩
  bind m f := fun s =>
    let p := m s
    let q := f p.answer p.stage
    ⟨q.answer, q.stage, p.trace ++ q.trace⟩

def stage : Ticking H (Stage H) := fun s => ⟨s, s, []⟩

def edit (f : Stage H → Stage H) : Ticking H Unit := fun s => ⟨(), f s, []⟩

def emit (i : TraceItem H) : Ticking H Unit := fun s => ⟨(), s, [i]⟩

def warn (w : Warning) : Ticking H Unit := emit (.warning w)

/-- Draws from the random stream of the tree. -/
def draw32 : Ticking H UInt32 := fun s =>
  ⟨s.shared.rng.next32.1, s.setRng s.shared.rng.next32.2, []⟩

/-- Calls a leaf: it acts on the shared state, and its notes go to the trace. `hook` names the call
for an answer. -/
def leaf {Leaf α : Type} (node : NodeId) (hook : α → LeafHook)
    (call : H.Shared → LeafStep Leaf H.Shared H.Note α) : Ticking H (α × Leaf) := fun s =>
  let r := call s.shared
  ⟨(r.answer, r.leaf), { s with shared := r.shared },
    .called node (hook r.answer) :: r.notes.map .note⟩

/-- Lets one observer hear an event. A panic costs a warning and nothing else. -/
def tell (e : StatusEvent) (o : H.Observer) : Ticking H H.Observer := fun s =>
  let r := H.notify e o s.audience
  ⟨r.observer, { s with audience := r.audience },
    r.notes.map .note ++ if r.panicked then [.warning (.observerPanicked e.node)] else []⟩

/-- Lets observers hear an event in turn. -/
def tellAll (e : StatusEvent) : List H.Observer → Ticking H (List H.Observer)
  | [] => pure []
  | o :: os => do
    let o ← tell e o
    let os ← tellAll e os
    pure (o :: os)

/-- Emits an event, lets the node's own observers hear it and then those of the whole tree. -/
def announce (e : StatusEvent) (own : List H.Observer) : Ticking H (List H.Observer) := do
  emit (.event e)
  let own ← tellAll e own
  let everyone ← tellAll e (← stage).observers
  edit fun s => { s with observers := everyone }
  pure own

end Ticking

end BehaviourTree
