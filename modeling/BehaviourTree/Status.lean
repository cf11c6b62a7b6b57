/-!
The result of updating a node.
-/

namespace BehaviourTree

/-- Every update of a node ends in exactly one of these. -/
inductive Status where
  | running
  | success
  | fail
deriving DecidableEq, Inhabited

namespace Status

def isRunning (s : Status) : Bool := s == .running

/-- The run is over. -/
def isTerminal (s : Status) : Bool := !s.isRunning

/-- The status of a test that holds or not. -/
def ofBool (b : Bool) : Status := if b then .success else .fail

def all : List Status := [.running, .success, .fail]

def name : Status → String
  | .running => "Running"
  | .success => "Success"
  | .fail => "Fail"

def ofName? (s : String) : Option Status := all.find? (·.name == s)

end Status

end BehaviourTree
