/-!
Binary fractions: the exact values of floating-point numbers.
-/

namespace BehaviourTree.Decimal

/-- The value m·2ᵉ with a sign. -/
structure Binary where
  negative : Bool
  mantissa : Nat
  exponent : Int
deriving DecidableEq, Inhabited

namespace Binary

/-- Reads a word of sign, exponent and fraction with the given widths. The exponent field of all
ones stands for no number. -/
def ofBits? (exponentBits fractionBits bits : Nat) : Option Binary :=
  let one := Nat.pow 2 fractionBits
  let fields := Nat.pow 2 exponentBits
  let fraction := bits%one
  let field := bits/one%fields
  let negative := bits/(one*fields)%2 = 1
  let least : Int := 2-Nat.pow 2 (exponentBits-1)-fractionBits
  if field = fields-1 then none
  else if field = 0 then some ⟨negative, fraction, least⟩
  else some ⟨negative, one+fraction, least+field-1⟩

/-- The absolute value as a quotient of natural numbers. -/
def quotient (b : Binary) : Nat × Nat :=
  (b.mantissa*Nat.pow 2 b.exponent.toNat, Nat.pow 2 (-b.exponent).toNat)

end Binary

/-- The exact value of a finite number of single precision. -/
def ofSingle? (x : Float32) : Option Binary := Binary.ofBits? 8 23 x.toBits.toNat

/-- The exact value of a finite number of double precision. -/
def ofDouble? (x : Float) : Option Binary := Binary.ofBits? 11 52 x.toBits.toNat

/-- The rank of the infinity of single precision. -/
def infinityRank : Nat := 255*Nat.pow 2 23

/-- Where a number of single precision stands among all of them, counted from zero. Both zeros stand
at the same place, and what is not a number stands nowhere. -/
def rank? (x : Float32) : Option Int :=
  let bits := x.toBits.toNat
  let half := UInt32.size/2
  let size := bits%half
  if infinityRank < size then none else some (if bits < half then size else -size)

/-- Rounds a quotient to the nearest whole number, a half to the even one. -/
def roundHalfEven (num den : Nat) : Nat :=
  let q := num/den
  let twice := 2*(num%den)
  if den < twice ∨ (twice = den ∧ q%2 = 1) then q+1 else q

/-- The word of the number of single precision that is nearest to a value, a half rounded to the even
neighbour. What is too large is infinite. -/
def Binary.singleWord (b : Binary) : UInt32 :=
  let least : Int := -149
  -- The exponent of the last place: there are 24 places, and none below the least.
  let last := max least (b.exponent+b.mantissa.log2-23)
  let places := if last ≤ b.exponent then b.mantissa*Nat.pow 2 (b.exponent-last).toNat
    else roundHalfEven b.mantissa (Nat.pow 2 (last-b.exponent).toNat)
  let size := min infinityRank (places+(last-least).toNat*Nat.pow 2 23)
  .ofNat (if b.negative then UInt32.size/2+size else size)

/-- The number of single precision that is nearest to one of double precision. -/
def nearestSingle (x : Float) : Float32 :=
  match ofDouble? x with
  | some b => .ofBits b.singleWord
  | none => if x.isNaN then 0/0 else if 0 < x then 1/0 else -1/0

end BehaviourTree.Decimal
