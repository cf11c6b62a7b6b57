import BehaviourTree.Path

/-!
Files as a program finds them, and a folder of them in memory.
-/

namespace BehaviourTree

/-- What there is under a path. -/
inductive Found where
  | nothing
  | folder
  | file (bytes : ByteArray)

namespace Found

def exists? : Found → Bool
  | nothing => false
  | _ => true

def isFolder : Found → Bool
  | folder => true
  | _ => false

/-- The text of a file, if its bytes make one. -/
def text? : Found → Option String
  | file bytes => String.fromUTF8? bytes
  | _ => none

end Found

/-- Where a path leads. -/
inductive Place where
  /-- Under names that lead to it from the current folder. -/
  | inside (names : List String)
  /-- One of the folders around the current one. Of those nothing else is known. -/
  | around
  /-- The file that is always empty, whatever is written into it. -/
  | sink
deriving DecidableEq

/-- The current folder: files and folders under the names that lead to them. -/
structure Folder where
  entries : List (List String × Found)

namespace Folder

def empty : Folder := ⟨[]⟩

/-- Puts something under names, in place of what was there. -/
def putUnder (f : Folder) (names : List String) (what : Found) : Folder :=
  ⟨(names, what) :: f.entries.filter (·.1 ≠ names)⟩

/-- Puts something under the names of a path. -/
def put (f : Folder) (path : String) (what : Found) : Folder := f.putUnder (Path.names path) what

/-- What is at a place. There are folders on the way to whatever there is. -/
def lookAt (f : Folder) : Place → Found
  | .around => .folder
  | .sink => .file .empty
  | .inside names =>
    if names.isEmpty then .folder
    else match f.entries.lookup names with
      | some what => what
      | none => if f.entries.any fun e => names.isPrefixOf e.1 then .folder else .nothing

/-- How many bytes a name may have. -/
def nameLimit : Nat := 255

/-- How many bytes a path may have. -/
def pathLimit : Nat := 4095

/-- The path of the file that is always empty. -/
def sinkPath : String := "/dev/null"

/-- Follows one part of a path. Only folders lead on. -/
def follow? (f : Folder) (place : Place) (part : String) : Option Place :=
  if !(f.lookAt place).isFolder then none
  else if part = "" ∨ part = "." then some place
  else match place with
    | .inside names =>
      if part = ".." then some (if names.isEmpty then .around else .inside names.dropLast)
      else if nameLimit < part.utf8ByteSize then none
      else some (.inside (names ++ [part]))
    | _ => if part = ".." then some .around else none

/-- Where a path leads. There need not be anything yet. -/
def place? (f : Folder) (path : String) : Option Place :=
  if path = "" ∨ pathLimit < path.utf8ByteSize then none
  else if path = sinkPath then some .sink
  else (Path.parts path).foldlM f.follow? (if Path.isAbsolute path then .around else .inside [])

/-- What is under a path. -/
def look (f : Folder) (path : String) : Found :=
  match f.place? path with
  | some place => f.lookAt place
  | none => .nothing

/-- Writes a text into a file. Its folder has to be there. -/
def write? (f : Folder) (path text : String) : Option Folder :=
  match f.place? path with
  | some (.inside names) =>
    if (f.lookAt (.inside names)).isFolder then none
    else some (f.putUnder names (.file text.toUTF8))
  | some .sink => some f
  | _ => none

end Folder

end BehaviourTree
