import BehaviourTree.Document.Basic
import BehaviourTree.Yaml.Plain
import BehaviourTree.Yaml.Reference

/-!
What a reader may expect of a YAML node. A tag matters little: it may turn lines of a block into a
number, keep a text from meaning nothing, and name one of several choices.
-/

namespace BehaviourTree.Yaml

namespace View

def text? (v : View) : Option String :=
  match v.target? with
  | some (.text _ _ s) => some s
  | _ => none

/-- What a text of some kind stands for. It is plain, or a block with the tag of its kind. -/
def meaning? {α : Type} (kind : Tag) (meaning : String → Option α) (v : View) : Option α :=
  match v.target? with
  | some (.text p style s) =>
    if style = .plain ∨ style = .literal ∧ p.tag = some kind then meaning s else none
  | _ => none

end View

/-- Nothing is written. -/
def Node.isEmpty : Linked → Bool
  | text _ .plain s => s.isEmpty
  | _ => false

namespace View

/-- A list. Where nothing is written it is empty. -/
def list? (v : View) : Option (List View) :=
  match v.target? with
  | some (.list _ items) => some (items.map v.visit)
  | some n => if n.isEmpty then some [] else none
  | none => none

/-- A record. Where nothing is written it has no parts. -/
def record? (names : List String) (v : View) : Option (List (Option View)) :=
  match v.target? with
  | some (.record _ parts) => do
    namedParts names (← parts.mapM fun p => (v.visit p.1).text?.map (·, v.visit p.2))
  | some n => if n.isEmpty then namedParts names [] else none
  | none => none

/-- A text that means nothing is none at all, unless its tag says otherwise. A text whose tag says
that it is nothing has to say so too. -/
def optional? (v : View) : Option (Option View) :=
  match v.target? with
  | some (.text p .plain s) => match p.tag with
    | none => some (if Plain.isNull s then none else some v)
    | some .null => if Plain.isNull s && !s.isEmpty then some none else none
    | some _ => some (some v)
  | some _ => some (some v)
  | none => none

/-- A name, written as a text or as a tag before nothing. -/
def choice? (v : View) : Option String :=
  match v.target? with
  | some (.text p style s) => match p.tag with
    | some (.own name) => if style = .plain ∧ Plain.isNull s then some name else none
    | _ => some s
  | _ => none

end View

/-- How YAML presents values. -/
def dialect : Dialect View where
  text := View.text?
  flag := View.meaning? .flag Plain.flag?
  natural := View.meaning? .whole Plain.natural?
  single := View.meaning? .float fun s => (Plain.double? s).map Decimal.nearestSingle
  list := View.list?
  record := View.record?
  optional := View.optional?
  choice := View.choice?

/-! ### How often references are followed -/

/-- References may be followed so many times for each node, counted as in `Node.size`. -/
def referenceLimit : Nat := 100

mutual

/-- How large a node is. The start and the end of a list or a record count separately. -/
def Node.size : Linked → Nat
  | .reference _ => 1
  | .text .. => 1
  | .list _ items => 2+Node.itemsSize items
  | .record _ parts => 2+Node.partsSize parts

def Node.itemsSize : List Linked → Nat
  | [] => 0
  | n :: rest => n.size+Node.itemsSize rest

def Node.partsSize : List (Linked × Linked) → Nat
  | [] => 0
  | (name, value) :: rest => name.size+value.size+Node.partsSize rest

end

namespace View

/-- One for a reference. -/
def step (v : View) : Nat :=
  match v.node with
  | .reference _ => 1
  | _ => 0

mutual

/-- How many references are followed by one who reads a node of a given shape. -/
def steps : Shape → View → Nat
  | .single, v => v.step
  | .list shape, v => v.step + match v.target? with
    | some (.list _ items) => (items.map fun n => steps shape (v.visit n)).sum
    | _ => 0
  | .record shapes, v => v.step + match v.target? with
    | some (.record _ parts) =>
      (parts.map fun p => (v.visit p.1).step).sum+partSteps shapes v parts
    | _ => 0

/-- How many are followed in the parts that are read. -/
def partSteps : List (String × Shape) → View → List (Linked × Linked) → Nat
  | [], _, _ => 0
  | (name, shape) :: rest, v, parts =>
    (parts.map fun p =>
      if (v.visit p.1).text? = some name then steps shape (v.visit p.2) else 0).sum+partSteps rest v parts

end

/-- Reads a text of which the reader knows the shape. Too many references are refused. -/
def read? {α : Type} (shape : Shape) (read : View → Option α) (s : String) : Option α := do
  let v ← ofText? s
  let a ← read v
  if v.steps shape ≤ referenceLimit*v.node.size then pure a else none

end View

end BehaviourTree.Yaml
