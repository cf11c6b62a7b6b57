import BehaviourTree.Yaml.Tag
import BehaviourTree.Yaml.Text

/-!
The structure of a YAML document: lists and records in brackets or by indentation. A node may have a
name, its anchor, by which others refer to it, and a tag.
-/

namespace BehaviourTree.Yaml

/-- What may be written before a node. -/
structure Properties (Name Kind : Type) where
  anchor : Option Name
  tag : Option Kind

/-- Nodes of which the names and the tags may be as they are written or what these stand for. -/
inductive Node (Name Kind : Type) where
  | reference (name : Name)
  | text (properties : Properties Name Kind) (style : Style) (s : String)
  | list (properties : Properties Name Kind) (items : List (Node Name Kind))
  | record (properties : Properties Name Kind) (parts : List (Node Name Kind × Node Name Kind))

/-- A node as it is written. -/
abbrev Written := Node String TagName

abbrev WrittenProperties := Properties String TagName

namespace Properties

variable {Name Kind : Type}

def none : Properties Name Kind := ⟨Option.none, Option.none⟩

def isNone (p : Properties Name Kind) : Bool := p.anchor.isNone && p.tag.isNone

/-- Both together. There is at most one anchor and one tag. -/
def and? (p q : Properties Name Kind) : Option (Properties Name Kind) :=
  if p.anchor.isSome && q.anchor.isSome || p.tag.isSome && q.tag.isSome then Option.none
  else some ⟨p.anchor.or q.anchor, p.tag.or q.tag⟩

end Properties

namespace Node

variable {Name Kind : Type}

/-- What stands where nothing is written. -/
def empty : Node Name Kind := text .none .plain ""

/-- A node with further properties. A reference has none. -/
def with? (p : Properties Name Kind) : Node Name Kind → Option (Node Name Kind)
  | reference _ => none
  | text q style s => (p.and? q).map fun r => text r style s
  | list q items => (p.and? q).map fun r => list r items
  | record q parts => (p.and? q).map fun r => record r parts

end Node

/-! ### Names and properties -/

/-- The name of an anchor, at its definition or where it is referred to. -/
def anchorName? (gs : List Glyph) : Option (String × List Glyph) :=
  let (name, rest) := word gs
  let ends := atGap rest || ['?', ':', ',', ']', '\x7d', '%', '@', '\x60'].any (startsWith · rest)
  if name.isEmpty || !ends then none else some (name, rest)

def atProperty (gs : List Glyph) : Bool := startsWith '&' gs || startsWith '!' gs

def property? (flow : Bool) (gs : List Glyph) : Option (WrittenProperties × List Glyph) :=
  if startsWith '&' gs then (anchorName? gs.tail).map fun r => (⟨some r.1, none⟩, r.2)
  else (tag? flow gs.tail).map fun r => (⟨none, some r.1⟩, r.2)

/-- Goes on to what may belong to the same node: between brackets on any line. -/
def nextInNode (flow : Bool) (gs : List Glyph) : List Glyph :=
  if flow then nextInFlow gs else gs.dropWhile (isBlank ·.char)

/-- The properties at the start, if there are any, and what comes next. -/
def properties? (flow : Bool) (gs : List Glyph) : Option (WrittenProperties × List Glyph) :=
  if !atProperty gs then some (.none, gs)
  else do
    let (p, rest) ← property? flow gs
    let rest := nextInNode flow rest
    if atProperty rest then
      let (q, rest) ← property? flow rest
      pure (← p.and? q, nextInNode flow rest)
    else pure (p, rest)

def atBlock (gs : List Glyph) : Bool := startsWith '|' gs || startsWith '>' gs

/-- No node follows after properties. -/
def atNothing (flow : Bool) (gs : List Glyph) : Bool :=
  if flow then [',', ']', '\x7d', ':'].any (startsWith · gs) else atLineEnd gs || atColon gs

/-! ### Names of parts -/

/-- How many bytes the longest name of a part has, with the blanks before its colon. -/
def nameLimit : Nat := 1024

/-- The bytes of the glyphs from `start` up to a later one on the same line. -/
def bytesUpTo (g : Glyph) (start : List Glyph) : Nat :=
  let before := start.takeWhile fun s => s.line = g.line && s.column < g.column
  before.foldl (fun size s => size+s.char.utf8Size) 0

/-- What is left after the colon of a part whose name began at `start`. The colon is on the same
line and not too far away. -/
def afterColon? (start colon : List Glyph) : Option (List Glyph) :=
  match start, colon with
  | s :: _, c :: rest =>
    if c.char = ':' ∧ c.line = s.line ∧ bytesUpTo c start ≤ nameLimit then some rest
    else none
  | _, _ => none

/-- What is left after the colon that makes a node the name of a part, outside of brackets. -/
def afterName? (start : List Glyph) (name : Step Written) : Option (List Glyph) :=
  let colon := name.next.rest
  if atColon colon then afterColon? start colon else none

/-- A name of any form follows, outside of brackets. -/
def atQuery (gs : List Glyph) : Bool := startsWith '?' gs && atGap gs.tail

/-- A member of a list in brackets. One with a value is a record of one part. -/
def Node.ofMember : Written × Option Written → Written
  | (n, none) => n
  | (n, some v) => .record .none [(n, v)]

/-- A member of a record in braces. -/
def partOfMember (m : Written × Option Written) : Written × Written := (m.1, m.2.getD .empty)

/-! ### Between brackets -/

mutual

/-- A node that needs no indentation: a reference, in brackets, in quotes, or plain. -/
def inline? : Nat → Bool → Nat → List Glyph → Option (Step Written)
  | 0, _, _, _ => none
  | fuel+1, flow, margin, gs => do
    let (p, gs) ← properties? flow gs
    if !p.isNone && atNothing flow gs then pure ⟨.text p .plain "", false, gs⟩
    else match gs with
      | [] => none
      | g :: rest =>
        if g.char = '*' then
          if p.isNone then (anchorName? rest).map fun r => ⟨.reference r.1, false, r.2⟩ else none
        else if g.char = '[' then (members? fuel ']' margin (nextInFlow rest)).map fun r =>
          ⟨.list p (r.1.map .ofMember), false, r.2⟩
        else if g.char = '\x7b' then (members? fuel '\x7d' margin (nextInFlow rest)).map fun r =>
          ⟨.record p (r.1.map partOfMember), false, r.2⟩
        else if g.char = '\x27' then (singleRest? [] rest).map fun r =>
          ⟨.text p .quoted (.ofList r.1), false, r.2⟩
        else if g.char = '"' then (doubleRest? (.gap false []) rest).map fun r =>
          ⟨.text p .quoted (.ofList r.1), false, r.2⟩
        else (plain? flow margin gs).map (·.map (.text p .plain))

/-- The members before a closing bracket, each with the value after its colon. -/
def members? : Nat → Char → Nat → List Glyph → Option (List (Written × Option Written) × List Glyph)
  | 0, _, _, _ => none
  | fuel+1, close, margin, gs =>
    if startsWith close gs then some ([], gs.tail)
    else do
      let (member, next) ← if startsWith '?' gs then queried? fuel close margin gs.tail
        else member? fuel close margin gs
      if startsWith close next then pure ([member], next.tail)
      else if startsWith ',' next then
        let (members, rest) ← members? fuel close margin (nextInFlow next.tail)
        pure (member :: members, rest)
      else none

/-- A member, and what comes after it. -/
def member? : Nat → Char → Nat → List Glyph → Option ((Written × Option Written) × List Glyph)
  | 0, _, _, _ => none
  | fuel+1, close, margin, gs => do
    let node ← inline? fuel true margin gs
    let next := nextInFlow node.rest
    match afterColon? gs next with
    | none => pure ((node.value, none), next)
    | some rest => do
      let (value, rest) ← memberValue? fuel close margin (nextInFlow rest)
      pure ((node.value, some value), nextInFlow rest)

/-- A member after a question mark, which makes it a part of a record. Its name may take several
lines, or be missing. In a list, the mark after a missing name is passed over. -/
def queried? : Nat → Char → Nat → List Glyph → Option ((Written × Option Written) × List Glyph)
  | 0, _, _, _ => none
  | fuel+1, close, margin, gs => do
    let gs := nextInFlow gs
    let (name, next) ← if startsWith ':' gs || startsWith ',' gs || startsWith close gs then
        some (Node.empty, if close = ']' then nextInFlow gs.tail else gs)
      else (inline? fuel true margin gs).map fun s => (s.value, nextInFlow s.rest)
    if startsWith ':' next then
      let (value, rest) ← memberValue? fuel close margin (nextInFlow next.tail)
      pure ((name, some value), nextInFlow rest)
    else pure ((name, some .empty), next)

/-- The value after a colon in brackets. It may be missing. -/
def memberValue? : Nat → Char → Nat → List Glyph → Option (Written × List Glyph)
  | 0, _, _, _ => none
  | fuel+1, close, margin, gs =>
    if startsWith close gs || startsWith ',' gs then some (.empty, gs)
    else (inline? fuel true margin gs).map fun s => (s.value, s.rest)

end

/-! ### By indentation -/

mutual

/-- A node from the column `margin` on. The items of a list that is the value of a part may stand
one column before. Where nothing is indented far enough, nothing is written. -/
def node? : Nat → Bool → Nat → Step Unit → Option (Step Written)
  | 0, _, _, _ => none
  | fuel+1, inPart, margin, step =>
    let s := step.next
    match s.rest with
    | [] => some (s.map fun _ => .empty)
    | g :: rest =>
      let empty := some (s.map fun _ => Node.empty)
      if atMarker s.rest then empty
      else if atEntry s.rest then
        if margin ≤ g.column ∨ inPart ∧ margin = g.column+1 then
          if s.fresh then (items? fuel g.column s.rest).map (·.map (.list .none)) else none
        else empty
      else match blockStyle? g.char with
        | some style =>
          if margin ≤ g.column+1 then (block? style margin rest).map (·.map (.text .none style))
          else empty
        | none =>
          if g.column < margin then empty
          else if atQuery s.rest then
            if s.fresh then (queriedPart? fuel g.column rest).map (·.map (.record .none)) else none
          else do
            let (p, rest) ← properties? false s.rest
            if !p.isNone && (atLineEnd rest || atBlock rest) then
              let node ← node? fuel inPart margin ⟨(), false, rest⟩
              let whole ← node.value.with? p
              pure (node.map fun _ => whole)
            else
              let node ← inline? fuel false margin s.rest
              match afterName? s.rest node with
              | some rest =>
                if s.fresh then (part? fuel g.column node.value rest).map (·.map (.record .none))
                else none
              | none => if node.fresh || atLineEnd node.rest then some node else none

/-- The items of a list whose dashes stand in a column. -/
def items? : Nat → Nat → List Glyph → Option (Step (List Written))
  | 0, _, _ => none
  | fuel+1, column, gs => do
    let item ← node? fuel false (column+1) ⟨(), true, gs.tail⟩
    let s := item.next
    if atEntry s.rest && atColumn column s.rest then
      (items? fuel column s.rest).map (·.map (item.value :: ·))
    else pure (s.map fun _ => [item.value])

/-- The parts of a record whose names start in a column, from the value of the first on. -/
def part? : Nat → Nat → Written → List Glyph → Option (Step (List (Written × Written)))
  | 0, _, _, _ => none
  | fuel+1, column, name, gs => do
    let value ← node? fuel true (column+1) ⟨(), false, gs⟩
    (parts? fuel column value.next).map (·.map ((name, value.value) :: ·))

/-- The same after a question mark. A value begins with a colon in the same column. -/
def queriedPart? : Nat → Nat → List Glyph → Option (Step (List (Written × Written)))
  | 0, _, _ => none
  | fuel+1, column, gs => do
    let name ← node? fuel true (column+1) ⟨(), true, gs⟩
    let s := name.next
    let value ← if atColumn column s.rest && atColon s.rest then
        node? fuel true (column+1) ⟨(), true, s.rest.tail⟩
      else some (s.map fun _ => .empty)
    (parts? fuel column value.next).map (·.map ((name.value, value.value) :: ·))

/-- All further parts. -/
def parts? : Nat → Nat → Step Unit → Option (Step (List (Written × Written)))
  | 0, _, _ => none
  | fuel+1, column, s =>
    if !atColumn column s.rest || atMarker s.rest then some (s.map fun _ => [])
    else if atQuery s.rest then queriedPart? fuel column s.rest.tail
    else do
      let name ← inline? fuel false (column+1) s.rest
      let rest ← afterName? s.rest name
      part? fuel column name.value rest

end

/-- Only marks that end the document are left. -/
def atEnd : Nat → Step Unit → Bool
  | 0, _ => false
  | fuel+1, s =>
    let gs := s.next.rest
    gs.isEmpty || isMarker '.' gs && atEnd fuel ⟨(), false, gs.drop 3⟩

/-- Reads a text that holds one document: what the directives say, and the node. -/
def Written.ofText? (s : String) : Option (Directives × Written) := do
  let gs ← glyphs? s
  let fuel := 4*(gs.length+1)
  let (directives, start) ← Directives.all? fuel .none (Step.mk () true gs).next
  let marked := isMarker '-' start.rest
  if isMarker '.' start.rest || !directives.isNone && !marked then none
  else
    let start := if marked then ⟨(), false, start.rest.drop 3⟩ else start
    let node ← node? fuel false 0 start
    if atEnd fuel (node.map fun _ => ()) then some (directives, node.value) else none

end BehaviourTree.Yaml
