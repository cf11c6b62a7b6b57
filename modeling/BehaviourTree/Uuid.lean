/-!
128-bit identifiers and their texts. The written form is 32 lowercase hexadecimal digits in five
groups; four spellings are read.
-/

namespace BehaviourTree

/-- A universally unique identifier. -/
structure Uuid where
  bits : BitVec 128
deriving DecidableEq, Inhabited

namespace Uuid

def ofNat (n : Nat) : Uuid := ⟨BitVec.ofNat 128 n⟩

/-- The value of a hexadecimal digit of either case. -/
def hexValue? (c : Char) : Option Nat :=
  if c.isDigit then some (c.toNat - '0'.toNat)
  else if 'a' ≤ c ∧ c ≤ 'f' then some (c.toNat - 'a'.toNat + 10)
  else if 'A' ≤ c ∧ c ≤ 'F' then some (c.toNat - 'A'.toNat + 10)
  else none

/-- The `n` lowest hexadecimal digits of a number, the highest first. -/
def hexDigits : Nat → Nat → List Char
  | 0, _ => []
  | n+1, v => hexDigits n (v/16) ++ [Nat.digitChar (v%16)]

/-- The lengths of the groups that hyphens separate. -/
def groups : List Nat := [8, 4, 4, 4, 12]

/-- Cuts the digits into groups with hyphens between them. -/
def hyphenate : List Nat → List Char → List Char
  | [], ds => ds
  | [_], ds => ds
  | n :: ns, ds => ds.take n ++ '-' :: hyphenate ns (ds.drop n)

/-- The digits of a grouped text, or nothing if a hyphen is not where the groups want it. -/
def unhyphenate : List Nat → List Char → Option (List Char)
  | [], cs => some cs
  | [_], cs => some cs
  | n :: ns, cs => match cs.drop n with
    | '-' :: rest => (unhyphenate ns rest).map (cs.take n ++ ·)
    | _ => none

/-- Lowercase digits in five groups. -/
def text (u : Uuid) : String := String.ofList (hyphenate groups (hexDigits 32 u.bits.toNat))

/-- Reads exactly 32 hexadecimal digits. -/
def ofDigits? (cs : List Char) : Option Uuid :=
  if cs.length = 32 then
    (cs.mapM hexValue?).map fun vs => ofNat (vs.foldl (fun acc v => 16*acc+v) 0)
  else none

/-- Reads the grouped digits. -/
def ofGrouped? (cs : List Char) : Option Uuid := unhyphenate groups cs >>= ofDigits?

/-- What stands before the digits of an identifier that is written as a resource name. -/
def resourceName : List Char := "urn:uuid:".toList

/-- Reads bare digits, grouped digits, and grouped digits in braces or as a resource name. -/
def ofText? (s : String) : Option Uuid :=
  let cs := s.toList
  match cs.length with
  | 32 => ofDigits? cs
  | 36 => ofGrouped? cs
  | 38 => if cs.head? = some '\x7b' ∧ cs.getLast? = some '\x7d' then
      ofGrouped? ((cs.drop 1).take 36) else none
  | 45 => if cs.take 9 = resourceName then ofGrouped? (cs.drop 9) else none
  | _ => none

end Uuid

end BehaviourTree
