/-!
Points of the canvas and of the world.
-/

namespace BehaviourTree

/-- Where an author has put a node on the canvas. -/
structure Vec2 where
  x : Float32
  y : Float32
deriving Inhabited, BEq

/-- A point of the world. -/
structure Vec3 where
  x : Float32
  y : Float32
  z : Float32
deriving Inhabited, BEq

def Vec2.zero : Vec2 := ⟨0, 0⟩

def Vec3.zero : Vec3 := ⟨0, 0, 0⟩

end BehaviourTree
