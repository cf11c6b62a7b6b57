import BehaviourTree.Proofs.Outlines
import BehaviourTree.Proofs.RunReport

/-!
What is printed of a tree that is inspected: every node once, those that the root leads to in an
outline and the others in a list below it.
-/

namespace BehaviourTree

namespace Command

variable {path : String} {found : Found} {template : TreeTemplate} {tree : Tree host}
  {supply supply' : IdSupply} {limit : Nat}

end Command

end BehaviourTree
