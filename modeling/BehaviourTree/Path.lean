/-!
Names of files: parts with slashes between them.
-/

namespace BehaviourTree.Path

/-- What stands between the places of a mark, before the first one and behind the last. -/
def cut (mark : Char) : List Char → List (List Char)
  | [] => [[]]
  | c :: cs =>
    if c = mark then [] :: cut mark cs
    else match cut mark cs with
      | [] => [[c]]
      | piece :: pieces => (c :: piece) :: pieces

def split (mark : Char) (s : String) : List String := (cut mark s.toList).map String.ofList

/-- The parts of a path. The first one is empty if the path begins at the top. -/
def parts (path : String) : List String := split '/' path

/-- The parts that say something. Empty ones and single points do not. -/
def names (path : String) : List String :=
  (parts path).filter fun part => part ≠ "" && part ≠ "."

/-- Begins at the top and not in the current folder. -/
def isAbsolute (path : String) : Bool := path.toList.head? == some '/'

/-- What follows the last point of the last name. A point at its start does not count. -/
def extension? (path : String) : Option String :=
  match (names path).getLast? with
  | none => none
  | some name =>
    let pieces := split '.' name
    if name = ".." ∨ ".".intercalate pieces.dropLast = "" then none else pieces.getLast?

/-- The extension is a given one, whatever the case of its letters. -/
def hasExtension (path extension : String) : Bool :=
  ((extension? path).map fun e => e.toLower == extension).getD false

end BehaviourTree.Path
