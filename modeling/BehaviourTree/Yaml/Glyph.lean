/-!
Characters with their places in a text. The structure of a YAML document hangs on lines and columns,
so they are fixed before anything is read.
-/

namespace BehaviourTree.Yaml

structure Glyph where
  char : Char
  line : Nat
  column : Nat
deriving DecidableEq

def byteOrderMark : Char := '\ufeff'

/-- Ends a line. Other characters that do are rewritten to the first of these. -/
def isBreak (c : Char) : Bool := c = '\n' || c = '\u2028' || c = '\u2029'

def isBlank (c : Char) : Bool := c = ' ' || c = '\t'

/-- Controls are not allowed in a document, breaks and tabs apart. -/
def isAllowed (c : Char) : Bool :=
  let n := c.toNat
  n = 9 || n = 10 || n = 13 || n = 0x85 || 0x20 ≤ n && n ≤ 0x7e || 0xa0 ≤ n && n ≤ 0xfffd ||
    0x10000 ≤ n

/-- Writes all usual ends of a line alike. -/
def unifyBreaks : List Char → List Char
  | [] => []
  | '\r' :: '\n' :: cs => '\n' :: unifyBreaks cs
  | c :: cs => (if c = '\r' ∨ c = '\u0085' then '\n' else c) :: unifyBreaks cs

/-- Places characters from a given line and column on. -/
def place : Nat → Nat → List Char → List Glyph
  | _, _, [] => []
  | line, column, c :: cs =>
    ⟨c, line, column⟩ :: if isBreak c then place (line+1) 0 cs else place line (column+1) cs

/-- The glyphs of a text. -/
def glyphs? (s : String) : Option (List Glyph) :=
  let cs := s.toList
  if cs.all isAllowed then some (place 0 0 (unifyBreaks cs)) else none

/-- A blank, a break or the end of the text comes next. -/
def atGap : List Glyph → Bool
  | [] => true
  | g :: _ => isBlank g.char || isBreak g.char

def startsWith (c : Char) (gs : List Glyph) : Bool := (gs.head?.map (·.char)) = some c

def atColumn (column : Nat) (gs : List Glyph) : Bool := (gs.head?.map (·.column)) = some column

/-- Three of the same character at the start of a line that stand alone. -/
def isMarker (mark : Char) : List Glyph → Bool
  | a :: b :: c :: rest =>
    a.column = 0 && a.char = mark && b.char = mark && c.char = mark && atGap rest
  | _ => false

/-- A document begins or ends. -/
def atMarker (gs : List Glyph) : Bool := isMarker '-' gs || isMarker '.' gs

/-- The first item of a list, or another one, begins. -/
def atEntry : List Glyph → Bool
  | g :: rest => g.char = '-' && atGap rest
  | [] => false

/-- Something that has been read, and what is left. `fresh` says whether a line has begun since, so
that the part of a record or an item of a list may come next. -/
structure Step (α : Type) where
  value : α
  fresh : Bool
  rest : List Glyph

def Step.map {α β : Type} (f : α → β) (s : Step α) : Step β := ⟨f s.value, s.fresh, s.rest⟩

/-- Skips blanks, breaks and a comment that may have begun. Where a part or an item may come next, a
tab is not a blank. A byte order mark at the start of a line is skipped too, but takes a column. -/
def skipGap (flow : Bool) : Bool → Bool → List Glyph → Step Unit
  | _, fresh, [] => ⟨(), fresh, []⟩
  | comment, fresh, g :: gs =>
    if isBreak g.char then skipGap flow false (fresh || !flow) gs
    else if comment || g.char = '#' then skipGap flow true fresh gs
    else if g.char = ' ' || g.char = '\t' && (flow || !fresh) ||
        g.char = byteOrderMark && g.column = 0 then skipGap flow false fresh gs
    else ⟨(), fresh, g :: gs⟩

/-- Goes on to the next character that counts, between brackets. -/
def nextInFlow (gs : List Glyph) : List Glyph := (skipGap true false false gs).rest

/-- Goes on to the next character that counts, outside of brackets. -/
def Step.next {α : Type} (s : Step α) : Step Unit := skipGap false false s.fresh s.rest

/-- Nothing but blanks and a comment is left of the line. -/
def atLineEnd : List Glyph → Bool
  | [] => true
  | g :: gs => isBreak g.char || g.char = '#' || isBlank g.char && atLineEnd gs

end BehaviourTree.Yaml
