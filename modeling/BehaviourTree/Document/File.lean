import BehaviourTree.Document.Domain
import BehaviourTree.Document.Format
import BehaviourTree.Folder

/-!
Settings and templates in files.
-/

namespace BehaviourTree

/-- What went wrong with a file, what it holds, and its path. -/
inductive FileFault where
  | unreadable (what path : String)
  | malformed (what path : String)
  | unwritable (what path : String)
deriving DecidableEq

def FileFault.message : FileFault → String
  | unreadable what path => s!"Failed to read {what} from {path}"
  | malformed what path => s!"Failed to parse {what} from {path}"
  | unwritable what path => s!"Failed to write {what} to {path}"

/-- Reads what has been found under a path. -/
def loadAs {α : Type} (what path : String) (format : FileFormat)
    (shape : Shape) (read : {V : Type} → Dialect V → V → Option α) (found : Found) :
    Except FileFault α :=
  match found.text? with
  | none => .error (.unreadable what path)
  | some s => match format.read? shape read s with
    | none => .error (.malformed what path)
    | some a => .ok a

namespace RuntimeConfig

/-- Settings are in YAML, whatever their file is called. -/
def load (path : String) (found : Found) : Except FileFault RuntimeConfig :=
  loadAs "config" path .yaml RuntimeConfig.shape RuntimeConfig.read found

/-- Where there is no file the standard settings hold. -/
def loadOrStandard (path : String) (found : Found) : Except FileFault RuntimeConfig :=
  if found.exists? then load path found else .ok standard

end RuntimeConfig

namespace TreeTemplate

def fileKind : String := "tree template"

def load (path : String) (found : Found) : Except FileFault TreeTemplate :=
  loadAs fileKind path (.ofPath path) TreeTemplate.shape TreeTemplate.read found

/-- What is written into a file of a given path. -/
def fileText (t : TreeTemplate) (path : String) : String :=
  (FileFormat.ofPath path).write t.toDocument

/-- Saves a template in a folder. -/
def save (t : TreeTemplate) (path : String) (folder : Folder) : Except FileFault Folder :=
  match folder.write? path (t.fileText path) with
  | some folder => .ok folder
  | none => .error (.unwritable fileKind path)

end TreeTemplate

end BehaviourTree
