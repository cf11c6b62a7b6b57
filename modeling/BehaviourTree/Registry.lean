import BehaviourTree.Node

/-!
The node kinds that can be made by name.
-/

namespace BehaviourTree

/-- Prototypes by name. Every node made under a name starts as a copy of its prototype. -/
structure Registry (H : Host) where
  kinds : Std.TreeMap String (NodeKind H)

namespace Registry

variable {H : Host}

/-- Adds or replaces the prototype under a name. -/
def register (r : Registry H) (name : String) (kind : NodeKind H) : Registry H :=
  ⟨r.kinds.insert name kind⟩

/-- The control kinds that every registry starts with. A root is not among them: a tree makes its
own. -/
def builtinKinds : List (NodeKind H) :=
  [.sequence (.idle []), .selector (.idle []), .parallel [], .randomChoice [] none, .repeater none]

/-- Just the built-in kinds, each under the name of its type. -/
def builtin : Registry H := builtinKinds.foldl (fun r k => r.register k.nodeType.name k) ⟨∅⟩

def contains (r : Registry H) (name : String) : Bool := r.kinds.contains name

/-- The names in the order of their code points. -/
def names (r : Registry H) : List String := r.kinds.keys

/-- A copy of the prototype under a name. -/
def create? (r : Registry H) (name : String) : Option (NodeKind H) := r.kinds[name]?

/-- A developer's view: the names. -/
def describe (r : Registry H) : String :=
  Text.record "NodeRegistry" [Text.part "kinds" (Text.listing (r.names.map Text.quoted))]

end Registry

end BehaviourTree
