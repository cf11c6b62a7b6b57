import BehaviourTree.Identity
import BehaviourTree.Text.Quoted
import Std.Data.TreeMap

/-!
The store that the nodes of one tree share. Every entry has a type that is fixed when the entry is
made: an access with any other type is refused.
-/

namespace BehaviourTree

/-- Why an access to a blackboard is refused. -/
inductive BlackboardError (ι : Type) where
  | missingKey (key : String)
  | typeMismatch (key : String) (stored requested : ι)
deriving DecidableEq

/-- Wording of a refusal, given the names of the types. -/
def BlackboardError.message {ι : Type} (typeName : ι → String) : BlackboardError ι → String
  | .missingKey key => s!"blackboard has no entry for key `{key}`"
  | .typeMismatch key stored requested =>
    s!"blackboard entry `{key}` holds `{typeName stored}`, not `{typeName requested}`"

/-- A store from keys to values of the types `ι`; the values of type `t` are those of `V t`. -/
structure Blackboard {ι : Type} (V : ι → Type) where
  id : BlackboardId
  entries : Std.TreeMap String ((t : ι) × V t)

namespace Blackboard

variable {ι : Type} {V : ι → Type}

def empty (id : BlackboardId) : Blackboard V := ⟨id, ∅⟩

def size (b : Blackboard V) : Nat := b.entries.size

def isEmpty (b : Blackboard V) : Bool := b.entries.isEmpty

/-- The keys in the order of their code points. -/
def keys (b : Blackboard V) : List String := b.entries.keys

def contains (b : Blackboard V) (key : String) : Bool := b.entries.contains key

/-- The type of an entry. -/
def typeOf? (b : Blackboard V) (key : String) : Option ι := b.entries[key]?.map (·.1)

def clear (b : Blackboard V) : Blackboard V := ⟨b.id, ∅⟩

variable [DecidableEq ι]

/-- Reads an entry of the requested type. -/
def get (b : Blackboard V) (key : String) (t : ι) : Except (BlackboardError ι) (V t) :=
  match b.entries[key]? with
  | none => .error (.missingKey key)
  | some ⟨s, v⟩ => if h : s = t then .ok (h ▸ v) else .error (.typeMismatch key s t)

/-- The value under a key if there is one of the requested type. -/
def get? (b : Blackboard V) (key : String) (t : ι) : Option (V t) := (b.get key t).toOption

/-- Adds an entry, or overwrites one of the same type. -/
def set (b : Blackboard V) (key : String) (t : ι) (v : V t) :
    Except (BlackboardError ι) (Blackboard V) :=
  match b.entries[key]? with
  | some ⟨s, _⟩ =>
    if s = t then .ok ⟨b.id, b.entries.insert key ⟨t, v⟩⟩ else .error (.typeMismatch key s t)
  | none => .ok ⟨b.id, b.entries.insert key ⟨t, v⟩⟩

/-- Edits an entry of the requested type in place. -/
def modify (b : Blackboard V) (key : String) (t : ι) (f : V t → V t) :
    Except (BlackboardError ι) (Blackboard V) :=
  (b.get key t).map fun v => ⟨b.id, b.entries.insert key ⟨t, f v⟩⟩

/-- Removes an entry of any type. -/
def remove (b : Blackboard V) (key : String) : Except (BlackboardError ι) (Blackboard V) :=
  if b.entries.contains key then .ok ⟨b.id, b.entries.erase key⟩ else .error (.missingKey key)

omit [DecidableEq ι] in
/-- A developer's view: the identifier and the type of every entry, in the order of the keys. -/
def describe (idText : BlackboardId → String) (typeName : ι → String) (b : Blackboard V) : String :=
  let entry (e : String × (t : ι) × V t) :=
    Text.part (Text.quoted e.1) (Text.quoted (typeName e.2.1))
  let entries := "\x7b" ++ ", ".intercalate (b.entries.toList.map entry) ++ "\x7d"
  Text.record "Blackboard"
    [Text.part "id" ("BlackboardId(" ++ idText b.id ++ ")"), Text.part "entries" entries]

end Blackboard

end BehaviourTree
