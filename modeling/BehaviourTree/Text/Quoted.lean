import BehaviourTree.Text.Unshown

/-!
Texts as a developer reads them: in double quotes, with escapes for what would not be seen.
-/

namespace BehaviourTree.Text

/-- The form of a character inside quotes: a short escape where there is one, the code point in
braces for other unshown characters, and the character itself otherwise. -/
def escapeChar (c : Char) : List Char :=
  if c = '"' then ['\\', '"']
  else if c = '\\' then ['\\', '\\']
  else if c = '\n' then ['\\', 'n']
  else if c = '\r' then ['\\', 'r']
  else if c = '\t' then ['\\', 't']
  else if c.toNat = 0 then ['\\', '0']
  else if isUnshown c then '\\' :: 'u' :: '\x7b' :: Nat.toDigits 16 c.toNat ++ ['\x7d']
  else [c]

/-- A text in quotes. -/
def quoted (s : String) : String := String.ofList ('"' :: s.toList.flatMap escapeChar ++ ['"'])

/-- A value with named parts, as a developer reads it: the name, and the parts in braces if there
are any. -/
def record (name : String) (parts : List String) : String :=
  if parts.isEmpty then name else name ++ " \x7b " ++ ", ".intercalate parts ++ " \x7d"

/-- A part of a value: its name and its text. -/
def part (name text : String) : String := name ++ ": " ++ text

/-- A list, as a developer reads it. -/
def listing (items : List String) : String := "[" ++ ", ".intercalate items ++ "]"

/-- A value that may be missing, as a developer reads it. -/
def optional : Option String → String
  | none => "None"
  | some s => "Some(" ++ s ++ ")"

end BehaviourTree.Text
