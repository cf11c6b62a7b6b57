import BehaviourTree.Uuid

/-!
What plain texts stand for: nothing, flags, natural numbers and numbers with a point. A text that
stands for none of these is just a text.
-/

namespace BehaviourTree.Yaml.Plain

/-- Nothing at all. -/
def isNull (s : String) : Bool := ["", "~", "null", "Null", "NULL"].contains s

def flag? (s : String) : Option Bool :=
  [("true", true), ("True", true), ("TRUE", true), ("false", false), ("False", false),
    ("FALSE", false)].lookup s

/-! ### Whole numbers -/

def isSign (c : Char) : Bool := c = '+' || c = '-'

/-- Leaves out a plus. -/
def withoutPlus : List Char → List Char
  | '+' :: cs => cs
  | cs => cs

/-- Several digits of which the first is a zero, perhaps after a sign. They are no whole number. -/
def hasLeadingZero (cs : List Char) : Bool :=
  let digits := match cs with
    | c :: rest => if isSign c then rest else cs
    | [] => []
  1 < digits.length && digits.head? == some '0' && digits.all Char.isDigit

/-- A number written in a base up to sixteen. -/
def ofDigits? (base : Nat) (cs : List Char) : Option Nat :=
  if cs.isEmpty then none
  else do
    let ds ← cs.mapM Uuid.hexValue?
    if ds.all (· < base) then some (ds.foldl (fun n d => base*n+d) 0) else none

/-- A number after the mark of its base: sixteen, eight or two. -/
def based? : List Char → Option Nat
  | '0' :: 'x' :: cs => ofDigits? 16 cs
  | '0' :: 'o' :: cs => ofDigits? 8 cs
  | '0' :: 'b' :: cs => ofDigits? 2 cs
  | _ => none

def natural? (s : String) : Option Nat :=
  let cs := withoutPlus s.toList
  (based? cs).or (if hasLeadingZero s.toList then none else ofDigits? 10 cs)

/-! ### Numbers with a point -/

/-- Digits, perhaps none, and what is left. -/
def digits (cs : List Char) : List Char × List Char := cs.span Char.isDigit

/-- The exponent that makes up the rest of a number; zero if nothing is left. -/
def exponent? : List Char → Option Int
  | [] => some 0
  | c :: cs =>
    if c = 'e' ∨ c = 'E' then match cs with
      | '-' :: ds => (ofDigits? 10 ds).map fun n => -(n : Int)
      | ds => (ofDigits? 10 (withoutPlus ds)).map Int.ofNat
    else none

/-- The digits of a number and the place of the last one. -/
def decimal? (cs : List Char) : Option (List Char × Int) :=
  let (whole, rest) := digits cs
  let (fraction, rest) := match rest with
    | '.' :: cs => digits cs
    | cs => ([], cs)
  if whole.isEmpty && fraction.isEmpty then none
  else (exponent? rest).map fun e => (whole ++ fraction, e-fraction.length)

/-- Numbers with so many places in front of the point are too large for double precision. -/
def placeLimit : Int := 400

/-- The number of double precision nearest to one in digits, if there is a finite one. -/
def nearest? (ds : List Char) (exponent : Int) : Option Float :=
  let n := (ofDigits? 10 ds).getD 0
  let place := (toString n).length+exponent
  if n = 0 ∨ place < -placeLimit then some 0
  else if placeLimit < place then none
  else some (.ofScientific n (exponent < 0) exponent.natAbs) |>.filter (·.isFinite)

/-- A number of double precision. Infinities and what is not a number have names of their own. -/
def double? (s : String) : Option Float :=
  let named := [(".inf", 1/0), (".Inf", 1/0), (".INF", 1/0), ("+.inf", 1/0), ("+.Inf", 1/0),
    ("+.INF", 1/0), ("-.inf", -1/0), ("-.Inf", -1/0), ("-.INF", -1/0), (".nan", 0/0), (".NaN", 0/0),
    (".NAN", 0/0)]
  let unsigned (cs : List Char) : Option Float := decimal? cs >>= fun d => nearest? d.1 d.2
  (named.lookup s).or (match s.toList with
    | '-' :: cs => (unsigned cs).map (-·)
    | cs => unsigned (withoutPlus cs))

end BehaviourTree.Yaml.Plain
