import BehaviourTree.Proofs.Ticking

/-!
Trees whose nodes own their children: updating one is plain recursion, without identifiers to look
up and without nodes to take out and put back. Guards and choices are positions among the children.
-/

namespace BehaviourTree

variable {H : Host} {Child : Type}

/-- The state of a composite that works through its own children one after the other. -/
structure NestedSeries (Child : Type) where
  children : List Child
  guards : List Nat
  current : Nat

/-- A kind of node with the children that belong to it. -/
inductive NestedKind (H : Host) (Child : Type) where
  | root (child : Option Child)
  | action (leaf : H.Action)
  | condition (leaf : H.Condition)
  | repeater (child : Option Child)
  | sequence (series : NestedSeries Child)
  | selector (series : NestedSeries Child)
  | parallel (children : List Child)
  | randomChoice (children : List Child) (selected : Option Nat)

/-- A node with the children that belong to it. -/
structure NestedNode (H : Host) (Child : Type) where
  id : NodeId
  guid : NodeId
  typeName : String
  name : String
  kind : NestedKind H Child
  alwaysCheck : Bool
  position : Vec2
  owner : Option AgentHandle
  blackboard : Option BlackboardId
  running : Bool
  observers : List H.Observer

/-- Trees of at most so many levels. -/
def Nested (H : Host) : Nat → Type
  | 0 => Empty
  | levels+1 => NestedNode H (Nested H levels)

/-! ### Updates -/

namespace NestedSeries

/-- Begins a run: the first child is next, and newly flagged children become guards. -/
def enter (flagged : Child → Bool) (s : NestedSeries Child) : NestedSeries Child :=
  let fresh := (List.range s.children.length).filter fun i =>
    s.children[i]?.any flagged && !s.guards.contains i
  { s with guards := s.guards ++ fresh, current := 0 }

/-- Polls guards in turn up to the first that does not succeed. -/
def poll (name : Child → NodeId) (ask : Child → Ticking H (Status × Child)) :
    List Nat → List Child → Ticking H (Bool × List Child)
  | [], cs => pure (true, cs)
  | g :: gs, cs =>
    match cs[g]? with
    | none => poll name ask gs cs
    | some c => do
      let (answer, c) ← ask c
      match answer with
      | .success => poll name ask gs (cs.set g c)
      | .fail => pure (false, cs.set g c)
      | .running =>
        Ticking.warn (.guardRunning (name c))
        pure (false, cs.set g c)

/-- Updates the current child. After an answer of `pass` it is the next child's turn. -/
def advance (ask : Child → Ticking H (Status × Child)) (pass : Status) (s : NestedSeries Child) :
    Ticking H (Status × NestedSeries Child) :=
  match s.children[s.current]? with
  | none => pure (.fail, s)
  | some c => do
    let (answer, c) ← ask c
    let children := s.children.set s.current c
    if answer = pass then
      pure (if s.current+1 < children.length then .running else pass,
        { s with children, current := s.current+1 })
    else pure (answer, { s with children })

/-- One update: the guards, and if they hold the current child. -/
def update (name : Child → NodeId) (ask : Child → Ticking H (Status × Child)) (pass : Status)
    (empty : Warning) (s : NestedSeries Child) : Ticking H (Status × NestedSeries Child) :=
  if s.children.isEmpty then do
    Ticking.warn empty
    pure (.fail, s)
  else do
    let (holds, children) ← poll name ask s.guards s.children
    let s := { s with children }
    if holds then s.advance ask pass else pure (.fail, s)

end NestedSeries

/-- Updates children in turn up to the first that fails. -/
def askAll (ask : Child → Ticking H (Status × Child)) :
    List Child → Status → Ticking H (Status × List Child)
  | [], result => pure (result, [])
  | c :: cs, result => do
    let (answer, c) ← ask c
    match answer with
    | .success => do
      let (result, cs) ← askAll ask cs result
      pure (result, c :: cs)
    | .running => do
      let (result, cs) ← askAll ask cs .running
      pure (result, c :: cs)
    | .fail => pure (.fail, c :: cs)

/-- Picks a position among so many, with one draw if there is a choice to make. -/
def pickPosition (count : Nat) : Ticking H (Option Nat) :=
  if count = 0 then do
    Ticking.warn .choiceWithoutChildren
    pure none
  else do
    let w ← Ticking.draw32
    pure (some (scaleDraw w count))

namespace NestedKind

def children : NestedKind H Child → List Child
  | root c | repeater c => c.toList
  | action _ | condition _ => []
  | sequence s | selector s => s.children
  | parallel cs | randomChoice cs _ => cs

def enter (context : LeafContext) (flagged : Child → Bool) :
    NestedKind H Child → Ticking H (NestedKind H Child)
  | action a => do
    let (_, a) ← Ticking.leaf context.node (fun _ => .enter) (H.enter context a)
    pure (action a)
  | sequence s => pure (sequence (s.enter flagged))
  | selector s => pure (selector (s.enter flagged))
  | randomChoice cs _ => do pure (randomChoice cs (← pickPosition cs.length))
  | k => pure k

def update (context : LeafContext) (name : Child → NodeId)
    (ask : Child → Ticking H (Status × Child)) :
    NestedKind H Child → Ticking H (Status × NestedKind H Child)
  | root none => do
    Ticking.warn .rootWithoutChild
    pure (.fail, root none)
  | root (some c) => do
    let (status, c) ← ask c
    pure (status, root (some c))
  | action a => do
    let (status, a) ← Ticking.leaf context.node .update (H.update context a)
    pure (status, action a)
  | condition c => do
    let (holds, c) ← Ticking.leaf context.node .check (H.check context c)
    pure (.ofBool holds, condition c)
  | repeater none => do
    Ticking.warn .repeatWithoutChild
    pure (.fail, repeater none)
  | repeater (some c) => do
    let (_, c) ← ask c
    pure (.running, repeater (some c))
  | sequence s => do
    let (status, s) ← s.update name ask .success .sequenceWithoutChildren
    pure (status, sequence s)
  | selector s => do
    let (status, s) ← s.update name ask .fail .selectorWithoutChildren
    pure (status, selector s)
  | parallel cs => do
    let (status, cs) ← askAll ask cs .success
    pure (status, parallel cs)
  | randomChoice cs selected =>
    match selected.bind fun i => cs[i]?.map (i, ·) with
    | none => pure (.fail, randomChoice cs selected)
    | some (i, c) => do
      let (status, c) ← ask c
      pure (status, randomChoice (cs.set i c) selected)

def settle (context : LeafContext) (status : Status) :
    NestedKind H Child → Ticking H (NestedKind H Child)
  | action a =>
    if status.isTerminal then do
      let (_, a) ← Ticking.leaf context.node (fun _ => .exit) (H.exit context a)
      pure (action a)
    else pure (action a)
  | k => pure k

end NestedKind

/-- The kind that an update works on: an idle node begins a run. -/
def NestedNode.begin (context : LeafContext) (flagged : Child → Bool) (n : NestedNode H Child) :
    Ticking H (NestedKind H Child) :=
  if n.running then pure n.kind else do
    Ticking.emit (.entered n.id)
    n.kind.enter context flagged

/-- Updates a node: it is entered if it was idle, updated with `ask` for its children, announced,
and left if its run is over. -/
def NestedNode.update (frame : TickContext) (name : Child → NodeId) (flagged : Child → Bool)
    (ask : Child → Ticking H (Status × Child)) (n : NestedNode H Child) :
    Ticking H (Status × NestedNode H Child) := do
  let context : LeafContext := ⟨frame, n.id, n.owner⟩
  let kind ← n.begin context flagged
  let (status, kind) ← kind.update context name ask
  let observers ← Ticking.announce ⟨frame.tick, n.id, n.guid, status⟩ n.observers
  let kind ← kind.settle context status
  pure (status, { n with kind, observers, running := status.isRunning })

namespace Nested

def id : {levels : Nat} → Nested H levels → NodeId
  | 0, N => Empty.elim N
  | _+1, N => NestedNode.id N

def alwaysCheck : {levels : Nat} → Nested H levels → Bool
  | 0, N => Empty.elim N
  | _+1, N => NestedNode.alwaysCheck N

/-- Updates a tree for whoever asks, and with it the trees below its root. -/
def update (frame : TickContext) :
    {levels : Nat} → Option NodeId → Nested H levels → Ticking H (Status × Nested H levels)
  | 0, _, N => Empty.elim N
  | _+1, caller, N => do
    let self := NestedNode.id N
    Ticking.emit (.asked caller self)
    let (status, N) ← NestedNode.update frame id alwaysCheck (update frame (some self)) N
    Ticking.emit (.answered caller self status)
    pure (status, N)

/-- Ticks in a row, one per frame. -/
def run {levels : Nat} (N : Nested H levels) :
    List TickContext → Ticking H (List Status × Nested H levels)
  | [] => pure ([], N)
  | frame :: frames => do
    let (status, N) ← N.update frame none
    let (statuses, N) ← N.run frames
    pure (status :: statuses, N)

end Nested

/-! ### The flat form -/

/-- The children at some of the positions. -/
def childrenAt (name : Child → NodeId) (cs : List Child) (positions : List Nat) : List NodeId :=
  positions.filterMap fun i => cs[i]?.map name

def NestedSeries.flat (name : Child → NodeId) (s : NestedSeries Child) : Series :=
  ⟨s.children.map name, childrenAt name s.children s.guards, s.current⟩

/-- The same kind with links in place of children. -/
def NestedKind.flat (name : Child → NodeId) : NestedKind H Child → NodeKind H
  | root c => .root (c.map name)
  | action a => .action a
  | condition c => .condition c
  | repeater c => .repeater (c.map name)
  | sequence s => .sequence (s.flat name)
  | selector s => .selector (s.flat name)
  | parallel cs => .parallel (cs.map name)
  | randomChoice cs selected => .randomChoice (cs.map name) (selected.bind (cs[·]?.map name))

def NestedNode.flat (name : Child → NodeId) (n : NestedNode H Child) : Node H :=
  ⟨n.id, n.guid, n.typeName, n.name, n.kind.flat name, n.alwaysCheck, n.position, n.owner,
    n.blackboard, n.running, n.observers⟩

/-- All nodes of a tree, each linked to the nodes that it owns. -/
def Nested.nodes : {levels : Nat} → Nested H levels → List (Node H)
  | 0, N => Empty.elim N
  | _+1, N => NestedNode.flat id N :: (NestedNode.kind N).children.flatMap nodes

def Nested.ids {levels : Nat} (N : Nested H levels) : List NodeId := N.nodes.map (·.id)

/-- The node at the top of a tree with a level. -/
abbrev Nested.top {levels : Nat} (N : Nested H (levels+1)) : NestedNode H (Nested H levels) := N

/-- The subtrees below the top. -/
abbrev Nested.below {levels : Nat} (N : Nested H (levels+1)) : List (Nested H levels) :=
  N.top.kind.children

theorem Nested.nodes_succ {levels : Nat} (N : Nested H (levels+1)) :
    N.nodes = N.top.flat id :: N.below.flatMap nodes := rfl

theorem Nested.ids_succ {levels : Nat} (N : Nested H (levels+1)) :
    N.ids = N.id :: N.below.flatMap ids := by
  rw [ids, nodes_succ, List.map_cons, List.map_flatMap]
  rfl

end BehaviourTree
