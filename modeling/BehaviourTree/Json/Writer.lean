import BehaviourTree.Document.Basic

/-!
Writing documents as JSON, on one line or over many.
-/

namespace BehaviourTree.Json

/-- Numbers of single precision: a point always, an exponent with its sign outside of
10⁻⁶ to 10¹², and no form for what is not finite. -/
def singles : Decimal.Layout := ⟨some (-6, 12), true, true, "null", "null", "null"⟩

/-- The form of a character inside quotes. Quotes, backslashes and controls are escaped. -/
def escapeChar (c : Char) : List Char :=
  if c = '"' then ['\\', '"']
  else if c = '\\' then ['\\', '\\']
  else if c = '\n' then ['\\', 'n']
  else if c = '\r' then ['\\', 'r']
  else if c = '\t' then ['\\', 't']
  else if c.toNat = 8 then ['\\', 'b']
  else if c.toNat = 12 then ['\\', 'f']
  else if c.toNat < 32 then
    ['\\', 'u', '0', '0', Nat.digitChar (c.toNat/16), Nat.digitChar (c.toNat%16)]
  else [c]

/-- A text in quotes. -/
def quoted (s : String) : String := String.ofList ('"' :: s.toList.flatMap escapeChar ++ ['"'])

/-- The text of a value that is not a list or a record. -/
def leafText : Document → String
  | .text s => quoted s
  | .flag b => toString b
  | .natural n => toString n
  | .single x => singles.text x
  | .list _ | .record _ => ""

mutual

/-- A document on one line, without blanks. -/
def compact : Document → String
  | .list items => "[" ++ ",".intercalate (compactItems items) ++ "]"
  | .record parts => "\x7b" ++ ",".intercalate (compactParts parts) ++ "\x7d"
  | d => leafText d

def compactItems : List Document → List String
  | [] => []
  | d :: ds => compact d :: compactItems ds

def compactParts : List (String × Document) → List String
  | [] => []
  | (name, d) :: ds => (quoted name ++ ":" ++ compact d) :: compactParts ds

end

/-- A line break, and two blanks for every level. -/
def newLine (level : Nat) : String := "\n" ++ "".pushn ' ' (2*level)

/-- Lines between brackets, or just the brackets if there is nothing between them. -/
def bracket (left right : String) (level : Nat) (items : List String) : String :=
  if items.isEmpty then left ++ right
  else left ++ ",".intercalate (items.map (newLine (level+1) ++ ·)) ++ newLine level ++ right

mutual

/-- A document with every item and every part on a line of its own. -/
def pretty (level : Nat) : Document → String
  | .list items => bracket "[" "]" level (prettyItems (level+1) items)
  | .record parts => bracket "\x7b" "\x7d" level (prettyParts (level+1) parts)
  | d => leafText d

def prettyItems (level : Nat) : List Document → List String
  | [] => []
  | d :: ds => pretty level d :: prettyItems level ds

def prettyParts (level : Nat) : List (String × Document) → List String
  | [] => []
  | (name, d) :: ds => (quoted name ++ ": " ++ pretty level d) :: prettyParts level ds

end

end BehaviourTree.Json
