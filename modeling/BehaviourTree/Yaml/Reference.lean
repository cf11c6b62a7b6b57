import BehaviourTree.Yaml.Node

/-!
References between the nodes of a document. Anchors have numbers, and so have the references to
them. A name that is used for a second anchor may get a number that a later anchor gets again; a
reference stands for the last node of its number, wherever that is.
-/

namespace BehaviourTree.Yaml

/-- A node of which the references are numbers and the tags have a meaning. -/
abbrev Linked := Node Nat Tag

/-- The numbers of the anchors so far by their names. -/
abbrev AnchorNumbers := List (String × Nat)

namespace AnchorNumbers

/-- The number of a new anchor: how many names there are before it. -/
def next (ns : AnchorNumbers) : Nat := ns.length

/-- Gives the next number to a name, which may have had another one before. -/
def define (ns : AnchorNumbers) (name : String) : AnchorNumbers :=
  (name, ns.next) :: ns.filter (·.1 != name)

end AnchorNumbers

/-- Goes through a document from its start to its end. -/
abbrev Linking := StateT AnchorNumbers Option

/-- Properties of which the anchor gets its number. -/
def Properties.link (handles : Handles) (p : WrittenProperties) : Linking (Properties Nat Tag) := do
  let tag ← match p.tag with
    | some t => some <$> (t.resolve? handles : Option Tag)
    | Option.none => pure Option.none
  match p.anchor with
  | some name =>
    let ns ← get
    set (ns.define name)
    pure ⟨some ns.next, tag⟩
  | Option.none => pure ⟨Option.none, tag⟩

/-- An exclamation mark alone is no tag before a text, but one where no text is written. -/
def Properties.ofText (p : Properties Nat Tag) (style : Style) (s : String) : Properties Nat Tag :=
  if p.tag = some (.own "") ∧ ¬ (style = .plain ∧ s.isEmpty) then ⟨p.anchor, Option.none⟩ else p

namespace Node

mutual

def link (handles : Handles) : Written → Linking Linked
  | reference name => do pure (reference (← ((← get).lookup name : Option Nat)))
  | text p style s => do pure (text ((← p.link handles).ofText style s) style s)
  | list p items => do
    let p ← p.link handles
    pure (list p (← linkItems handles items))
  | record p parts => do
    let p ← p.link handles
    pure (record p (← linkParts handles parts))

def linkItems (handles : Handles) : List Written → Linking (List Linked)
  | [] => pure []
  | n :: rest => do
    let n ← link handles n
    pure (n :: (← linkItems handles rest))

def linkParts (handles : Handles) : List (Written × Written) → Linking (List (Linked × Linked))
  | [] => pure []
  | (name, value) :: rest => do
    let name ← link handles name
    let value ← link handles value
    pure ((name, value) :: (← linkParts handles rest))

end

/-- A node under the number of its anchor, if it has one. -/
def anchored (n : Linked) : List (Nat × Linked) :=
  (match n with
  | reference _ => none
  | text p .. | list p _ | record p _ => p.anchor).toList.map (·, n)

mutual

/-- All nodes with anchors in the order of the document. -/
def anchors : Linked → List (Nat × Linked)
  | reference _ => []
  | text p style s => anchored (text p style s)
  | list p items => anchored (list p items) ++ itemAnchors items
  | record p parts => anchored (record p parts) ++ partAnchors parts

def itemAnchors : List Linked → List (Nat × Linked)
  | [] => []
  | n :: rest => anchors n ++ itemAnchors rest

def partAnchors : List (Linked × Linked) → List (Nat × Linked)
  | [] => []
  | (name, value) :: rest => anchors name ++ anchors value ++ partAnchors rest

end

end Node

/-- A node together with what the references in it stand for. -/
structure View where
  /-- The nodes with anchors, the last first. -/
  targets : List (Nat × Linked)
  node : Linked

namespace View

/-- Another node of the same document. -/
def visit (v : View) (n : Linked) : View := ⟨v.targets, n⟩

/-- The node, or the one that it refers to. -/
def target? (v : View) : Option Linked :=
  match v.node with
  | .reference number => v.targets.lookup number
  | n => some n

/-- Reads a text that holds one document. -/
def ofText? (s : String) : Option View := do
  let (directives, written) ← Written.ofText? s
  let (root, _) ← (written.link directives.allHandles).run []
  pure ⟨root.anchors.reverse, root⟩

end View

end BehaviourTree.Yaml
