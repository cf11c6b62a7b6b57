import BehaviourTree.Decimal.Shortest

/-!
How decimals are written.
-/

namespace BehaviourTree.Decimal

/-- The decisions of a format that writes numbers of single precision in the fewest digits. -/
structure Layout where
  /-- The places of the leading digit that are written without an exponent; all, if not given. -/
  positional : Option (Int × Int)
  /-- A whole number gets a point and a zero. -/
  pointZero : Bool
  /-- An exponent that is not negative gets a sign. -/
  plus : Bool
  nan : String
  infinity : String
  negativeInfinity : String

/-- The digits of a number, with zeros in front up to a width. -/
def padded (width n : Nat) : String :=
  let s := toString n
  "".pushn '0' (width-s.length) ++ s

/-- Digits with the point in its place. -/
def positionalText (pointZero : Bool) (d : Digits) : String :=
  match d.exponent with
  | .ofNat e => toString d.digits ++ "".pushn '0' e ++ if pointZero then ".0" else ""
  | .negSucc e =>
    let scale := Nat.pow 10 (e+1)
    toString (d.digits/scale) ++ "." ++ padded (e+1) (d.digits%scale)

/-- One digit before the point, and an exponent. -/
def scientificText (plus : Bool) (d : Digits) : String :=
  let s := toString d.digits
  let place := d.exponent+s.length-1
  let fraction := s.drop 1
  (s.take 1).toString ++ (if fraction.isEmpty then "" else "." ++ fraction.toString) ++ "e" ++
    (if plus ∧ 0 ≤ place then "+" else "") ++ toString place

/-- A number of single precision in the fewest digits. -/
def Layout.text (l : Layout) (x : Float32) : String :=
  match ofSingle? x with
  | none => if x.isNaN then l.nan else if 0 < x then l.infinity else l.negativeInfinity
  | some b =>
    let d := shortest b
    let place := d.exponent+(toString d.digits).length-1
    let inside := match l.positional with
      | none => true
      | some (low, high) => decide (low ≤ place ∧ place ≤ high)
    (if b.negative then "-" else "") ++
      if inside then positionalText l.pointZero d else scientificText l.plus d

/-- Plain numbers for a reader: never an exponent, and no point in a whole number. -/
def plain : Layout := ⟨none, false, false, "NaN", "inf", "-inf"⟩

/-- An exact value with a fixed number of places, a half rounded to the even neighbour. -/
def fixedText (places : Nat) (b : Binary) : String :=
  let (num, den) := b.quotient
  let scale := Nat.pow 10 places
  let n := roundHalfEven (num*scale) den
  (if b.negative then "-" else "") ++ toString (n/scale) ++
    if places = 0 then "" else "." ++ padded places (n%scale)

/-- A number of double precision with a fixed number of places. -/
def fixedDouble (places : Nat) (x : Float) : String :=
  match ofDouble? x with
  | none => if x.isNaN then plain.nan else if 0 < x then plain.infinity else plain.negativeInfinity
  | some b => fixedText places b

/-- A number of single precision with a fixed number of places. -/
def fixedSingle (places : Nat) (x : Float32) : String :=
  match ofSingle? x with
  | none => if x.isNaN then plain.nan else if 0 < x then plain.infinity else plain.negativeInfinity
  | some b => fixedText places b

end BehaviourTree.Decimal
