/-!
The frame that a tick happens in.
-/

namespace BehaviourTree

/-- A frame of the simulation: its number, its length and the time it happens at, in seconds. -/
structure TickContext where
  tick : UInt64
  dt : Float32
  time : Float
deriving Inhabited

namespace TickContext

/-- Frame `tick` of a simulation with a fixed step. -/
def ofTick (tick : UInt64) (dt : Float32) : TickContext := ⟨tick, dt, tick.toFloat*dt.toFloat⟩

/-- The frame after this one. The number wraps, the time does not. -/
def next (c : TickContext) : TickContext := ⟨c.tick+1, c.dt, c.time+c.dt.toFloat⟩

/-- A frame and its successors, `n` in all. -/
def frames (c : TickContext) : Nat → List TickContext
  | 0 => []
  | n+1 => c :: c.next.frames n

end TickContext

end BehaviourTree
