import BehaviourTree.Decimal.Binary

/-!
The fewest digits that read back: of all decimals that round to a number of single precision, one
with the fewest digits, and of those the nearest.
-/

namespace BehaviourTree.Decimal

/-- The value d·10ˣ. -/
structure Digits where
  digits : Nat
  exponent : Int
deriving DecidableEq, Inhabited

/-- How many decimal digits a number has. Zero has none. -/
def digitCount : Nat → Nat → Nat
  | 0, _ => 0
  | _+1, 0 => 0
  | fuel+1, n => digitCount fuel (n/10)+1

/-- The least `t` from `from` on with `den ≤ num*10ᵗ`. -/
def leadingPlace (num den : Nat) : Nat → Nat → Nat
  | 0, start => start
  | fuel+1, start =>
    if den ≤ num*Nat.pow 10 start then start else leadingPlace num den fuel (start+1)

/-- The `k` with 10ᵏ⁻¹ ≤ num/den < 10ᵏ, for a positive quotient. -/
def magnitude (num den : Nat) : Int :=
  if den ≤ num then digitCount (num+1) (num/den) else 1-leadingPlace num den (den+1) 1

/-- The numbers that round to one of single precision, as multiples of a common unit: the number,
the ends of the interval around it, and whether the ends belong to it. -/
structure Interval where
  value : Nat
  lower : Nat
  upper : Nat
  unit : Nat
  closed : Bool

/-- Halfway to both neighbours. Below a power of two the neighbour is nearer. -/
def Interval.ofBinary (b : Binary) (powerOfTwo : Bool) : Interval :=
  let scale := Nat.pow 2 (b.exponent-2).toNat
  { value := 4*b.mantissa*scale
    lower := (4*b.mantissa-if powerOfTwo then 1 else 2)*scale
    upper := (4*b.mantissa+2)*scale
    unit := Nat.pow 2 (2-b.exponent).toNat
    closed := b.mantissa%2 = 0 }

namespace Interval

/-- The decimal d·10ˣ lies in the interval. -/
def holds (i : Interval) (d : Digits) : Bool :=
  let v := d.digits*Nat.pow 10 d.exponent.toNat*i.unit
  let scale := Nat.pow 10 (-d.exponent).toNat
  if i.closed then i.lower*scale ≤ v ∧ v ≤ i.upper*scale else i.lower*scale < v ∧ v < i.upper*scale

/-- The better of the value's two neighbours among the multiples of 10ˣ that lie in the interval. -/
def onGrid? (i : Interval) (x : Int) : Option Digits :=
  let num := i.value*Nat.pow 10 (-x).toNat
  let den := i.unit*Nat.pow 10 x.toNat
  let below : Digits := ⟨num/den, x⟩
  let above : Digits := ⟨num/den+1, x⟩
  match i.holds below, i.holds above with
  | true, true => some (if roundHalfEven num den = num/den then below else above)
  | true, false => some below
  | false, true => some above
  | false, false => none

/-- Tries grids from coarse to fine. -/
def search (i : Interval) : Nat → Int → Option Digits
  | 0, _ => none
  | tries+1, x => (i.onGrid? x).or (i.search tries (x-1))

end Interval

/-- Moves trailing zeros into the exponent. -/
def Digits.strip : Nat → Digits → Digits
  | 0, d => d
  | fuel+1, d =>
    if d.digits ≠ 0 ∧ d.digits%10 = 0 then strip fuel ⟨d.digits/10, d.exponent+1⟩ else d

/-- The most digits that a number of single precision needs. -/
def singleDigits : Nat := 9

/-- The shortest decimal of a number of single precision, without its sign. Zero has no digits. -/
def shortest (b : Binary) : Digits :=
  if b.mantissa = 0 then ⟨0, 0⟩
  else
    let (num, den) := b.quotient
    let k := magnitude num den
    let i := Interval.ofBinary b (b.mantissa = Nat.pow 2 23 ∧ b.exponent ≠ -149)
    ((i.search singleDigits (k-1)).getD ⟨0, 0⟩).strip singleDigits

end BehaviourTree.Decimal
