import BehaviourTree.StatusEvent
import Std.Data.TreeMap

/-!
Ready-made observers: one that does nothing, one that writes to the log, and recorders.
-/

namespace BehaviourTree

/-- The logs of recorders by name. Recorders of one name share a log. -/
structure Recordings where
  logs : Std.TreeMap String TraceLog

namespace Recordings

def empty : Recordings := ⟨∅⟩

def get? (r : Recordings) (name : String) : Option TraceLog := r.logs[name]?

/-- Opens a log that is not there yet. -/
def start (r : Recordings) (name : String) : Recordings :=
  if (r.get? name).isSome then r else ⟨r.logs.insert name .empty⟩

def push (r : Recordings) (name : String) (e : StatusEvent) : Recordings :=
  ⟨r.logs.insert name (((r.get? name).getD .empty).push e)⟩

/-- Gives a log away and goes on with an empty one. -/
def take (r : Recordings) (name : String) : TraceLog × Recordings :=
  ((r.get? name).getD .empty, ⟨r.logs.insert name .empty⟩)

end Recordings

/-- An observer without a state of its own. -/
inductive Listener where
  | silent
  | logger
  | recorder (name : String)
deriving DecidableEq

namespace Listener

/-- What the log says of an event. -/
def logMessage : String := "node updated"

/-- The recordings after an event, and the event again if it goes to the log. -/
def hear (l : Listener) (e : StatusEvent) (r : Recordings) : Recordings × List StatusEvent :=
  match l with
  | silent => (r, [])
  | logger => (r, [e])
  | recorder name => (r.push name e, [])

end Listener

end BehaviourTree
