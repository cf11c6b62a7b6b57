import BehaviourTree.Node

/-!
The trace of a tick: everything that happens in it, in order.
-/

namespace BehaviourTree

/-- Why a node failed, or was overruled, without a leaf having said so. -/
inductive Warning where
  | rootWithoutChild
  | repeatWithoutChild
  | sequenceWithoutChildren
  | selectorWithoutChildren
  | choiceWithoutChildren
  /-- A guard has to answer within one tick. -/
  | guardRunning (guard : NodeId)
  /-- A link leads to no node, or to one whose update is still in progress. -/
  | unresolved (child : NodeId)
  | observerPanicked (node : NodeId)
deriving DecidableEq

namespace Warning

def message : Warning → String
  | rootWithoutChild => "root has no child, treating as Fail"
  | repeatWithoutChild => "repeat has no child, treating as Fail"
  | sequenceWithoutChildren => "sequence has no children, treating as Fail"
  | selectorWithoutChildren => "selector has no children, treating as Fail"
  | choiceWithoutChildren => "random choice has no children, treating as Fail"
  | guardRunning _ =>
    "always-check node returned Running; guards must resolve within one tick, treating as Fail"
  | unresolved _ => "child reference does not resolve to a live node, treating as Fail"
  | observerPanicked _ => "status observer panicked, continuing tick"

/-- The node that a warning is about, where it names one. -/
def node? : Warning → Option NodeId
  | guardRunning id | unresolved id | observerPanicked id => some id
  | _ => none

end Warning

/-- The calls that a leaf can get, each with what the leaf answers. -/
inductive LeafHook where
  | enter
  | update (status : Status)
  | check (holds : Bool)
  | exit
deriving DecidableEq

/-- One thing that happens in a tick. -/
inductive TraceItem (H : Host) where
  /-- A node, or the tick itself, asks a node to update. -/
  | asked (caller : Option NodeId) (node : NodeId)
  | answered (caller : Option NodeId) (node : NodeId) (status : Status)
  /-- An idle node begins a run. -/
  | entered (node : NodeId)
  | called (node : NodeId) (hook : LeafHook)
  | note (text : H.Note)
  | event (e : StatusEvent)
  | warning (w : Warning)

/-- The trace of a tick, oldest item first. -/
abbrev Trace (H : Host) : Type := List (TraceItem H)

namespace Trace

variable {H : Host}

def events (t : Trace H) : List StatusEvent := t.filterMap fun
  | .event e => some e
  | _ => none

def warnings (t : Trace H) : List Warning := t.filterMap fun
  | .warning w => some w
  | _ => none

/-- The calls that leaves get. -/
def calls (t : Trace H) : List (NodeId × LeafHook) := t.filterMap fun
  | .called node hook => some (node, hook)
  | _ => none

/-- The answers that a node gets from those it asks. -/
def answersTo (caller : NodeId) (t : Trace H) : List (NodeId × Status) := t.filterMap fun
  | .answered (some c) node status => if c = caller then some (node, status) else none
  | _ => none

end Trace

end BehaviourTree
