import BehaviourTree.Document.Basic
import BehaviourTree.Uuid

/-!
Reading JSON. A value keeps what only its user can judge: whether a number is in range and whether
the escapes of a text name characters. What nobody uses may be wrong in these two ways.
-/

namespace BehaviourTree.Json

/-- A number as it is read. -/
inductive Number where
  /-- Below 2⁶⁴. -/
  | natural (n : Nat)
  /-- The number −n, from −1 to −2⁶³. -/
  | negative (n : Nat)
  /-- Anything else; nothing if it is beyond the largest number of double precision. -/
  | float (x : Option Float)

inductive Value where
  | null
  | flag (b : Bool)
  | number (n : Number)
  | text (s : Option String)
  | list (items : List Value)
  | record (parts : List (Option String × Value))

/-! ### Numbers -/

/-- Appends decimal digits to a number as long as it stays below 2⁶⁴; gives also the digits that are
left over. -/
def appendDigits : Nat → List Char → Nat × List Char
  | n, [] => (n, [])
  | n, c :: cs =>
    let next := 10*n+(c.toNat - '0'.toNat)
    if next < UInt64.size then appendDigits next cs else (n, c :: cs)

def powerOfTen (k : Nat) : Float := .ofScientific 1 false k

/-- The number f·10ᵉ by one multiplication or division, or by several divisions if the power is out
of range. -/
def scale : Nat → Float → Int → Option Float
  | steps, f, e =>
    if e.natAbs ≤ 308 then
      if 0 ≤ e then (some (f*powerOfTen e.natAbs)).filter (!·.isInf)
      else some (f/powerOfTen e.natAbs)
    else if f == 0 then some f
    else match steps with
      | 0 => some 0
      | steps+1 => if 0 ≤ e then none else scale steps (f/powerOfTen 308) (e+308)

/-- No number of 64 bits survives so many divisions by 10³⁰⁸. -/
def scaleSteps : Nat := 4

/-- A number from its digits before and after the point and its exponent. Digits that no longer fit
into 64 bits are dropped. -/
def Number.ofParts (negative : Bool) (whole : List Char) (fraction : Option (List Char))
    (exponent : Option Int) : Number :=
  let (n, dropped) := appendDigits 0 whole
  let sign (f : Float) : Float := if negative then -f else f
  if dropped.isEmpty ∧ fraction.isNone ∧ exponent.isNone then
    if !negative then .natural n
    else if 0 < n ∧ n ≤ UInt64.size/2 then .negative n
    else .float (some (sign n.toUInt64.toFloat))
  else
    let digits := fraction.getD []
    let (m, unused) := appendDigits n digits
    let kept := digits.length-unused.length
    .float ((scale scaleSteps m.toUInt64.toFloat
      (exponent.getD 0+dropped.length-kept)).map sign)

/-- One or more digits. -/
def digits? (cs : List Char) : Option (List Char × List Char) :=
  let (ds, rest) := cs.span Char.isDigit
  if ds.isEmpty then none else some (ds, rest)

/-- The digits of a whole number: a zero alone, or digits that do not start with one. -/
def whole? (cs : List Char) : Option (List Char × List Char) :=
  match cs with
  | '0' :: rest => if (rest.head?.map Char.isDigit).getD false then none else some (['0'], rest)
  | cs => digits? cs

def fraction? (cs : List Char) : Option (Option (List Char) × List Char) :=
  match cs with
  | '.' :: rest => (digits? rest).map fun r => (some r.1, r.2)
  | cs => some (none, cs)

def natOfDigits (ds : List Char) : Nat := ds.foldl (fun n c => 10*n+(c.toNat - '0'.toNat)) 0

def exponent? (cs : List Char) : Option (Option Int × List Char) :=
  match cs with
  | c :: rest =>
    if c = 'e' ∨ c = 'E' then match rest with
      | '-' :: rest => (digits? rest).map fun r => (some (-(natOfDigits r.1 : Int)), r.2)
      | '+' :: rest => (digits? rest).map fun r => (some (natOfDigits r.1 : Int), r.2)
      | rest => (digits? rest).map fun r => (some (natOfDigits r.1 : Int), r.2)
    else some (none, cs)
  | [] => some (none, [])

def number? (cs : List Char) : Option (Number × List Char) := do
  let (negative, cs) := match cs with
    | '-' :: rest => (true, rest)
    | cs => (false, cs)
  let (whole, cs) ← whole? cs
  let (fraction, cs) ← fraction? cs
  let (exponent, cs) ← exponent? cs
  pure (.ofParts negative whole fraction exponent, cs)

/-! ### Texts -/

/-- The value of four hexadecimal digits. -/
def hex4? (a b c d : Char) : Option Nat := do
  pure (((← Uuid.hexValue? a)*16+(← Uuid.hexValue? b))*256+(← Uuid.hexValue? c)*16+
    (← Uuid.hexValue? d))

/-- The characters that a backslash and one letter stand for. -/
def shortEscape? (c : Char) : Option Char :=
  [('"', '"'), ('\\', '\\'), ('/', '/'), ('b', Char.ofNat 8), ('f', Char.ofNat 12), ('n', '\n'),
    ('r', '\r'), ('t', '\t')].lookup c

/-- What has been read of a text: its characters, the last first, until an escape named none; and
the first half of a surrogate pair that waits for the second. -/
structure TextState where
  chars : Option (List Char)
  half : Option Nat

namespace TextState

def start : TextState := ⟨some [], none⟩

/-- Adds a character. A half pair in front of it names no character. -/
def push (s : TextState) (c : Char) : TextState :=
  ⟨if s.half.isSome then none else s.chars.map (c :: ·), none⟩

/-- Adds a 16-bit unit. -/
def pushUnit (s : TextState) (u : Nat) : TextState :=
  if 0xd800 ≤ u ∧ u < 0xdc00 then ⟨if s.half.isSome then none else s.chars, some u⟩
  else if 0xdc00 ≤ u ∧ u < 0xe000 then match s.half with
    | some h => ⟨s.chars.map (Char.ofNat (0x10000+(h-0xd800)*0x400+(u-0xdc00)) :: ·), none⟩
    | none => ⟨none, none⟩
  else s.push (Char.ofNat u)

def finish (s : TextState) : Option String :=
  if s.half.isSome then none else s.chars.map fun cs => String.ofList cs.reverse

end TextState

/-- The rest of a text after its opening quote. Control characters have to be escaped. -/
def textRest? : TextState → List Char → Option (Option String × List Char)
  | _, [] => none
  | s, '"' :: rest => some (s.finish, rest)
  | s, '\\' :: 'u' :: a :: b :: c :: d :: rest =>
    (hex4? a b c d).bind fun u => textRest? (s.pushUnit u) rest
  | s, '\\' :: c :: rest => (shortEscape? c).bind fun c => textRest? (s.push c) rest
  | s, c :: rest => if c.toNat < 32 then none else textRest? (s.push c) rest

/-! ### Values -/

def isBlank (c : Char) : Bool := c = ' ' || c = '\n' || c = '\t' || c = '\r'

def skipBlanks (cs : List Char) : List Char := cs.dropWhile isBlank

/-- What is left after a given word. -/
def afterWord? (word : String) (cs : List Char) : Option (List Char) :=
  if word.toList.isPrefixOf cs then some (cs.drop word.length) else none

mutual

/-- A value at the start of a text; `fuel` bounds the depth and the number of members. -/
def value? : Nat → List Char → Option (Value × List Char)
  | 0, _ => none
  | fuel+1, cs => match skipBlanks cs with
    | '[' :: rest => match skipBlanks rest with
      | ']' :: rest => some (.list [], rest)
      | rest => (items? fuel rest).map fun r => (.list r.1, r.2)
    | '\x7b' :: rest => match skipBlanks rest with
      | '\x7d' :: rest => some (.record [], rest)
      | rest => (parts? fuel rest).map fun r => (.record r.1, r.2)
    | '"' :: rest => (textRest? .start rest).map fun r => (.text r.1, r.2)
    | 'n' :: rest => (afterWord? "ull" rest).map fun rest => (.null, rest)
    | 't' :: rest => (afterWord? "rue" rest).map fun rest => (.flag true, rest)
    | 'f' :: rest => (afterWord? "alse" rest).map fun rest => (.flag false, rest)
    | cs => (number? cs).map fun r => (.number r.1, r.2)

/-- The items of a list after its bracket, one at least, and the closing bracket. -/
def items? : Nat → List Char → Option (List Value × List Char)
  | 0, _ => none
  | fuel+1, cs => (value? fuel cs).bind fun (v, rest) => match skipBlanks rest with
    | ',' :: rest => (items? fuel rest).map fun r => (v :: r.1, r.2)
    | ']' :: rest => some ([v], rest)
    | _ => none

/-- The parts of a record after its brace, one at least, and the closing brace. -/
def parts? : Nat → List Char → Option (List (Option String × Value) × List Char)
  | 0, _ => none
  | fuel+1, cs => match skipBlanks cs with
    | '"' :: rest => (textRest? .start rest).bind fun (name, rest) => match skipBlanks rest with
      | ':' :: rest => (value? fuel rest).bind fun (v, rest) => match skipBlanks rest with
        | ',' :: rest => (parts? fuel rest).map fun r => ((name, v) :: r.1, r.2)
        | '\x7d' :: rest => some ([(name, v)], rest)
        | _ => none
      | _ => none
    | _ => none

end

/-- Reads a text that holds one value and nothing else. -/
def Value.ofText? (s : String) : Option Value :=
  let cs := s.toList
  match value? (cs.length+1) cs with
  | some (v, rest) => if (skipBlanks rest).isEmpty then some v else none
  | none => none

/-! ### What a reader expects -/

namespace Number

/-- The nearest number of single precision, from a whole number directly. -/
def single? : Number → Option Float32
  | natural n => some n.toUInt64.toFloat32
  | negative n => some (-n.toUInt64.toFloat32)
  | float x => x.map Decimal.nearestSingle

end Number

namespace Value

def text? : Value → Option String
  | text s => s
  | _ => none

def flag? : Value → Option Bool
  | flag b => some b
  | _ => none

def natural? : Value → Option Nat
  | number (.natural n) => some n
  | _ => none

def single? : Value → Option Float32
  | number n => n.single?
  | _ => none

def list? : Value → Option (List Value)
  | list items => some items
  | _ => none

/-- A record, by names or as a list in the order of the names. -/
def record? (names : List String) : Value → Option (List (Option Value))
  | record parts => do namedParts names (← parts.mapM fun p => p.1.map (·, p.2))
  | list items =>
    if items.length ≤ names.length then
      some (items.map some ++ List.replicate (names.length-items.length) none)
    else none
  | _ => none

def optional? : Value → Option (Option Value)
  | null => some none
  | v => some (some v)

/-- A name, by itself or as the only part of a record that holds nothing else. -/
def choice? : Value → Option String
  | text s => s
  | record [(name, null)] => name
  | _ => none

end Value

/-- How JSON presents values. -/
def dialect : Dialect Value where
  text := Value.text?
  flag := Value.flag?
  natural := Value.natural?
  single := Value.single?
  list := Value.list?
  record := Value.record?
  optional := Value.optional?
  choice := Value.choice?

end BehaviourTree.Json
