import BehaviourTree.Json.Reader
import BehaviourTree.Json.Writer
import BehaviourTree.Path
import BehaviourTree.Yaml.Reader
import BehaviourTree.Yaml.Writer

/-!
The formats of files.
-/

namespace BehaviourTree

inductive FileFormat where
  | json
  | yaml
deriving DecidableEq

namespace FileFormat

/-- Files are in YAML unless their extension says that they are in JSON. -/
def ofPath (path : String) : FileFormat := if Path.hasExtension path "json" then json else yaml

def write : FileFormat → Document → String
  | json, d => Json.pretty 0 d
  | yaml, d => Yaml.written d

/-- Reads a text as a value of which the shape is known and how any format presents it. -/
def read? {α : Type} (f : FileFormat) (shape : Shape)
    (read : {V : Type} → Dialect V → V → Option α) (s : String) : Option α :=
  match f with
  | json => Json.Value.ofText? s >>= read Json.dialect
  | yaml => Yaml.View.read? shape (read Yaml.dialect) s

end FileFormat

end BehaviourTree
