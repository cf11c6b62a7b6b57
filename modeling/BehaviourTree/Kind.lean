/-!
The closed set of node kinds, and how many children each takes.
-/

namespace BehaviourTree

/-- What a node does when it is updated. -/
inductive NodeType where
  | root
  | action
  | condition
  | repeater
  | sequence
  | selector
  | parallel
  | randomChoice
deriving DecidableEq, Inhabited

/-- How many children a node takes. -/
inductive NodeShape where
  | noChildren
  | oneChild
  | manyChildren
deriving DecidableEq, Inhabited

namespace NodeType

def all : List NodeType :=
  [.root, .action, .condition, .repeater, .sequence, .selector, .parallel, .randomChoice]

def name : NodeType → String
  | .root => "Root"
  | .action => "Action"
  | .condition => "Condition"
  | .repeater => "Repeat"
  | .sequence => "Sequence"
  | .selector => "Selector"
  | .parallel => "Parallel"
  | .randomChoice => "RandomChoice"

def ofName? (s : String) : Option NodeType := all.find? (·.name == s)

def shape : NodeType → NodeShape
  | .action | .condition => .noChildren
  | .root | .repeater => .oneChild
  | .sequence | .selector | .parallel | .randomChoice => .manyChildren

end NodeType

def NodeShape.name : NodeShape → String
  | .noChildren => "NoChildren"
  | .oneChild => "OneChild"
  | .manyChildren => "ManyChildren"

end BehaviourTree
