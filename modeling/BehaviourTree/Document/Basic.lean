import BehaviourTree.Decimal.Layout

/-!
Documents: what the text formats have in common, seen from the writer and from the reader.
-/

namespace BehaviourTree

/-- A value as it is written. -/
inductive Document where
  | text (s : String)
  | flag (b : Bool)
  | natural (n : Nat)
  | single (x : Float32)
  | list (items : List Document)
  /-- Named parts in the order in which they are written. -/
  | record (parts : List (String × Document))
deriving Inhabited

/-- What a reader looks at in a document. -/
inductive Shape where
  /-- A text, a flag, a number or a choice. -/
  | single
  | list (items : Shape)
  /-- The parts that are read, by their names. -/
  | record (parts : List (String × Shape))

/-- A record of which all parts are single. -/
def Shape.flat (names : List String) : Shape := .record (names.map (·, .single))

/-- How a format presents a value to a reader who knows what to expect. Nothing comes back where the
value is something else. -/
structure Dialect (V : Type) where
  text : V → Option String
  flag : V → Option Bool
  natural : V → Option Nat
  single : V → Option Float32
  list : V → Option (List V)
  /-- The parts of a record in the order of the names; a part may be missing. -/
  record : List String → V → Option (List (Option V))
  /-- A value that may be none at all. -/
  optional : V → Option (Option V)
  /-- One of several names. -/
  choice : V → Option String

namespace Dialect

variable {V : Type}

/-- A natural number below a bound. -/
def below (d : Dialect V) (bound : Nat) (v : V) : Option Nat :=
  (d.natural v).filter (· < bound)

/-- All members of a list, read alike. -/
def each {α : Type} (d : Dialect V) (read : V → Option α) (v : V) : Option (List α) :=
  d.list v >>= fun vs => vs.mapM read

end Dialect

/-- A part that has to be there. -/
def required {V α : Type} (read : V → Option α) (part : Option V) : Option α := part >>= read

/-- A part that stands for something if it is not there. -/
def defaulting {V α : Type} (standard : α) (read : V → Option α) : Option V → Option α
  | none => some standard
  | some v => read v

/-- Picks a part by its name. The first of that name counts, so a record that has it twice should
have been refused before. -/
def partNamed {V : Type} (parts : List (String × V)) (name : String) : Option V := parts.lookup name

/-- The parts of a record by name. A part that is expected may not be there twice; others do not
count. -/
def namedParts {V : Type} (names : List String) (parts : List (String × V)) :
    Option (List (Option V)) :=
  if names.any fun n => 1 < (parts.filter (·.1 == n)).length then none
  else some (names.map (partNamed parts))

end BehaviourTree
