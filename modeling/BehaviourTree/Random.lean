/-!
A small deterministic random stream: a counter that steps by a fixed odd number, and a mixing
function that scatters it.
-/

namespace BehaviourTree

/-- Scatters a word. Each step can be undone, so no two words meet. -/
def mix64 (x : UInt64) : UInt64 :=
  let x := (x ^^^ (x >>> 30)) * 0xBF58476D1CE4E5B9
  let x := (x ^^^ (x >>> 27)) * 0x94D049BB133111EB
  x ^^^ (x >>> 31)

/-- The step of the counter, the odd word nearest to 2⁶⁴ divided by the golden ratio. -/
def goldenStep : UInt64 := 0x9E3779B97F4A7C15

/-- The seed that an agent's stream starts from under a global seed. -/
def deriveSeed (seed agent stream : UInt64) : UInt64 :=
  mix64 (seed ^^^ mix64 (agent+goldenStep) ^^^ mix64 stream)

/-- A stream of words that depends on nothing but its state. -/
structure SplitMix64 where
  state : UInt64
deriving DecidableEq, Inhabited

/-- Why an index cannot be drawn. -/
inductive DrawError where
  | emptyRange
  | overflow
deriving DecidableEq

/-- Maps a 32-bit draw evenly onto the indices below `len`. -/
def scaleDraw (w : UInt32) (len : Nat) : Nat := w.toNat*len/UInt32.size

namespace SplitMix64

def next64 (g : SplitMix64) : UInt64 × SplitMix64 :=
  let s := g.state+goldenStep
  (mix64 s, ⟨s⟩)

/-- The low half of the next word. -/
def next32 (g : SplitMix64) : UInt32 × SplitMix64 := (g.next64.1.toUInt32, g.next64.2)

/-- A number in [0, 1) with 24 random bits. -/
def nextUnit (g : SplitMix64) : Float32 × SplitMix64 :=
  ((g.next32.1 >>> 8).toFloat32/16777216, g.next32.2)

/-- An index below `len`. An empty range is refused before a word is drawn; a draw whose product
with `len` leaves 64 bits is refused after. -/
def nextIndex (g : SplitMix64) (len : UInt64) : Except DrawError Nat × SplitMix64 :=
  if len = 0 then (.error .emptyRange, g)
  else
    let (w, g) := g.next32
    if w.toNat*len.toNat < UInt64.size then (.ok (scaleDraw w len.toNat), g) else (.error .overflow, g)

end SplitMix64

end BehaviourTree
