import BehaviourTree.Identity
import BehaviourTree.Status

/-!
What observers hear of a tick: one event per update of a node.
-/

namespace BehaviourTree

/-- The status that an update of a node ended in. -/
structure StatusEvent where
  tick : UInt64
  node : NodeId
  /-- The node's authored identity, which all copies of an authored node share. -/
  guid : NodeId
  status : Status
deriving DecidableEq, Inhabited

/-- The events that a recorder has heard. The newest is at the front, where adding one is quick. -/
structure TraceLog where
  newestFirst : List StatusEvent
deriving DecidableEq, Inhabited

namespace TraceLog

def empty : TraceLog := ⟨[]⟩

/-- A log of events that are listed oldest first. -/
def ofEvents (events : List StatusEvent) : TraceLog := ⟨events.reverse⟩

/-- What has been heard, oldest first. -/
def events (l : TraceLog) : List StatusEvent := l.newestFirst.reverse

def push (l : TraceLog) (e : StatusEvent) : TraceLog := ⟨e :: l.newestFirst⟩

def size (l : TraceLog) : Nat := l.newestFirst.length

/-- The statuses of one node in the order of its updates. -/
def statusesOf (l : TraceLog) (node : NodeId) : List Status :=
  (l.events.filter (·.node = node)).map (·.status)

end TraceLog

end BehaviourTree
