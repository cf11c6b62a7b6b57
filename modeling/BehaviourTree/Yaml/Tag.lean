import BehaviourTree.Uuid
import BehaviourTree.Yaml.Glyph

/-!
Tags say what kind of value a node is. The first part of a tag is written as a handle; directives
before a document say what the handles stand for.
-/

namespace BehaviourTree.Yaml

/-- A tag as it is written. One without a handle is written in full. -/
structure TagName where
  handle : String
  suffix : List UInt8

/-- What a tag says. -/
inductive Tag where
  | null
  | flag
  | whole
  | float
  /-- A tag of the document's own, without its exclamation mark. -/
  | own (name : String)
  | other
deriving DecidableEq

namespace Tag

/-- The start of the tags that everyone knows. -/
def common : String := "tag:yaml.org,2002:"

def ofBytes (bytes : List UInt8) : Tag :=
  match String.fromUTF8? ⟨bytes.toArray⟩ with
  | none => other
  | some s => match s.toList with
    | '!' :: name => own (.ofList name)
    | _ => ([(common ++ "null", null), (common ++ "bool", flag), (common ++ "int", whole),
        (common ++ "float", float)].lookup s).getD other

end Tag

/-! ### Handles -/

/-- What handles stand for. -/
abbrev Handles := List (String × List UInt8)

/-- The handles of every document that does not use them for something else. -/
def Handles.standard : Handles :=
  [("!", "!".toUTF8.toList), ("!!", Tag.common.toUTF8.toList)]

/-- What a tag says, if its handle is known. -/
def TagName.resolve? (handles : Handles) (t : TagName) : Option Tag :=
  if t.handle.isEmpty then some (.ofBytes t.suffix)
  else (handles.lookup t.handle).map fun start => .ofBytes (start ++ t.suffix)

/-! ### Reading tags -/

/-- Characters of names and handles. -/
def isWordChar (c : Char) : Bool := c.isAlphanum || c = '-' || c = '_'

/-- The longest word at the start, and what is left. -/
def word (gs : List Glyph) : String × List Glyph :=
  let (cs, rest) := gs.span (isWordChar ·.char)
  (.ofList (cs.map (·.char)), rest)

/-- Characters of a tag, percent signs apart. Those between brackets belong to it only where it is
set off by brackets of its own, `inFull`. -/
def isAddressChar (inFull : Bool) (c : Char) : Bool :=
  isWordChar c || ";/?:@&=+$.!~*\x27()".toList.contains c || inFull && ",[]".toList.contains c

/-- How many bytes follow the first byte of a character. -/
def bytesAfter? (n : Nat) : Option Nat :=
  if n < 0x80 then some 0 else if n < 0xc0 then none else if n < 0xe0 then some 1
  else if n < 0xf0 then some 2 else if n < 0xf8 then some 3 else none

/-- The bytes of a tag or of the start of one. A percent sign and two digits stand for a byte. The
bytes of a character follow each other; `due` says how many are still to come. -/
def address? (inFull : Bool) : Nat → List Glyph → Option (List UInt8 × List Glyph)
  | due, g :: gs =>
    if g.char = '%' then match gs with
      | a :: b :: rest => do
        let byte := 16*(← Uuid.hexValue? a.char)+(← Uuid.hexValue? b.char)
        let due ← if due = 0 then bytesAfter? byte
          else if byte/64 = 2 then some (due-1) else none
        (address? inFull due rest).map fun r => (.ofNat byte :: r.1, r.2)
      | _ => none
    else if due ≠ 0 then none
    else if isAddressChar inFull g.char then
      (address? inFull 0 gs).map fun r => (g.char.toUInt8 :: r.1, r.2)
    else some ([], g :: gs)
  | due, [] => if due = 0 then some ([], []) else none

/-- An address that is not empty. It ends at a byte that is zero. -/
def someAddress? (inFull : Bool) (gs : List Glyph) : Option (List UInt8 × List Glyph) :=
  match address? inFull 0 gs with
  | some (b :: bytes, rest) => some ((b :: bytes).takeWhile (· ≠ 0), rest)
  | _ => none

/-- A tag after its exclamation mark, without what comes after it. -/
def tagName? (gs : List Glyph) : Option (TagName × List Glyph) :=
  if startsWith '<' gs then do
    let (bytes, rest) ← someAddress? true gs.tail
    if startsWith '>' rest then pure (⟨"", bytes⟩, rest.tail) else none
  else
    let (name, rest) := word gs
    if startsWith '!' rest then
      (someAddress? false rest.tail).map fun r => (⟨s!"!{name}!", r.1⟩, r.2)
    else (address? false 0 gs).map fun r => match r.1.takeWhile (· ≠ 0) with
      | [] => (⟨"", "!".toUTF8.toList⟩, r.2)
      | bytes => (⟨"!", bytes⟩, r.2)

/-- A tag after its exclamation mark. A blank follows, or a comma between brackets. -/
def tag? (flow : Bool) (gs : List Glyph) : Option (TagName × List Glyph) :=
  (tagName? gs).filter fun r => atGap r.2 || flow && startsWith ',' r.2

/-! ### Directives -/

/-- What the directives before a document say. -/
structure Directives where
  /-- The version has been given. -/
  versioned : Bool
  handles : Handles

namespace Directives

def none : Directives := ⟨false, []⟩

/-- There are no directives. -/
def isNone (d : Directives) : Bool := !d.versioned && d.handles.isEmpty

/-- All handles. Those of the directives come first. -/
def allHandles (d : Directives) : Handles := d.handles ++ .standard

/-- The longest number in a version. -/
def numberLimit : Nat := 9

def number? (gs : List Glyph) : Option (Nat × List Glyph) :=
  let (ds, rest) := gs.span (·.char.isDigit)
  if ds.isEmpty || decide (numberLimit < ds.length) then Option.none
  else some (ds.foldl (fun n d => 10*n+(d.char.toNat - '0'.toNat)) 0, rest)

/-- The number of a version that is known. It is given once. -/
def version? (d : Directives) (gs : List Glyph) : Option (Directives × List Glyph) := do
  let (major, rest) ← number? gs
  if startsWith '.' rest then
    let (minor, rest) ← number? rest.tail
    if !d.versioned && major = 1 && (minor = 1 || minor = 2) then
      pure ({ d with versioned := true }, rest)
    else failure
  else failure

/-- A handle and what it stands for. A handle is given once. -/
def handle? (d : Directives) (gs : List Glyph) : Option (Directives × List Glyph) :=
  if !startsWith '!' gs then Option.none
  else
    let (name, rest) := word gs.tail
    let closed := startsWith '!' rest
    let handle := if closed then s!"!{name}!" else "!"
    let rest := if closed then rest.tail else rest
    let start := rest.dropWhile (isBlank ·.char)
    if !closed && !name.isEmpty || start.length = rest.length || d.handles.any (·.1 = handle) then
      Option.none
    else ((someAddress? true start).filter (atGap ·.2)).map fun r =>
      ({ d with handles := d.handles ++ [(handle, r.1)] }, r.2)

/-- A directive after its percent sign, up to the end of the line. -/
def line? (d : Directives) (gs : List Glyph) : Option (Directives × List Glyph) := do
  let (name, rest) := word gs
  let value := rest.dropWhile (isBlank ·.char)
  let (d, rest) ← if !atGap rest then failure
    else if name = "YAML" then d.version? value
    else if name = "TAG" then d.handle? value
    else failure
  if atLineEnd rest then pure (d, (rest.dropWhile (!isBreak ·.char)).tail) else failure

/-- All directives at the start of a text. -/
def all? : Nat → Directives → Step Unit → Option (Directives × Step Unit)
  | 0, _, _ => Option.none
  | fuel+1, d, s =>
    if startsWith '%' s.rest && atColumn 0 s.rest then do
      let (d, rest) ← d.line? s.rest.tail
      all? fuel d (Step.mk () false rest).next
    else some (d, s)

end Directives

end BehaviourTree.Yaml
