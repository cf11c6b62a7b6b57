import BehaviourTree.Identity
import BehaviourTree.Random

/-!
A supply of identifiers that look random.
-/

namespace BehaviourTree

/-- The supply that two random words lead to. Mixing is injective, so each half alone tells 2⁶⁴
identifiers apart. -/
def IdSupply.ofWords (high low : UInt64) : IdSupply where
  stream n := .ofNat ((mix64 (high+.ofNat n)).toNat*UInt64.size+(mix64 (low+.ofNat n)).toNat)
  drawn := 0

end BehaviourTree
