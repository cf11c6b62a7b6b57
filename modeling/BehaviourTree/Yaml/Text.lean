import BehaviourTree.Uuid
import BehaviourTree.Yaml.Glyph

/-!
The ways to write a text: plain, in single quotes, in double quotes, and as lines of a block.
-/

namespace BehaviourTree.Yaml

/-- How a text is written. -/
inductive Style where
  | plain
  | quoted
  /-- As lines of a block that stay as they are. -/
  | literal
  /-- As lines of a block that are joined. -/
  | folded
deriving DecidableEq

/-- Blanks and breaks inside a text. Blanks around a break do not count, a single break counts as a
blank, and of several breaks the first is left out. -/
def fold (gap : List Char) : List Char :=
  match gap.filter isBreak with
  | [] => gap
  | ['\n'] => [' ']
  | '\n' :: more => more
  | breaks => breaks

/-! ### Plain texts -/

def isFlowMark (c : Char) : Bool := ",[]\x7b\x7d".toList.contains c

/-- No plain text starts with one of these, unless a rule makes an exception. -/
def isIndicator (c : Char) : Bool := "-?:,[]\x7b\x7d#&*!|>\x27\"%@\x60".toList.contains c

/-- A plain text may start here. -/
def startsPlain (flow : Bool) (gs : List Glyph) : Bool :=
  match gs with
  | [] => false
  | g :: rest =>
    let alone := atGap rest
    !atMarker gs && !isBlank g.char && (!isIndicator g.char || g.char = '-' && !alone ||
      !flow && (g.char = '?' || g.char = ':') && !alone)

/-- A colon that ends the text before it. -/
def atColon : List Glyph → Bool
  | g :: rest => g.char = ':' && atGap rest
  | [] => false

/-- A colon that neither ends a text nor belongs to it: a mark or a question mark follows between
brackets. -/
def atStrayColon : List Glyph → Bool
  | g :: h :: _ => g.char = ':' && (isFlowMark h.char || h.char = '?')
  | _ => false

/-- A plain text, of which `gap`, the last character first, may be a part if more text follows. The
lines after the first start in the column `margin` or later. -/
def plainRest? (flow : Bool) (margin : Nat) :
    List Char → Bool → List Glyph → Option (Step (List Char))
  | _, fresh, [] => some ⟨[], fresh, []⟩
  | gap, fresh, g :: gs =>
    if isBlank g.char then
      if g.char = '\t' ∧ fresh ∧ g.column < margin then none
      else plainRest? flow margin (g.char :: gap) fresh gs
    else if isBreak g.char then plainRest? flow margin (g.char :: gap) true gs
    else
      let outside := !flow && decide (g.column < margin) || g.char = '#' || atMarker (g :: gs)
      if !gap.isEmpty && outside || atColon (g :: gs) || flow && isFlowMark g.char then
        some ⟨[], fresh, g :: gs⟩
      else if flow && atStrayColon (g :: gs) then none
      else (plainRest? flow margin [] false gs).map fun s =>
        s.map fun cs => fold gap.reverse ++ g.char :: cs

/-- A plain text at the start of what is left. -/
def plain? (flow : Bool) (margin : Nat) (gs : List Glyph) : Option (Step String) :=
  if startsPlain flow gs then (plainRest? flow margin [] false gs).map (·.map String.ofList)
  else none

/-! ### Texts in quotes -/

/-- The rest of a text in single quotes. A quote in it is written twice. -/
def singleRest? : List Char → List Glyph → Option (List Char × List Glyph)
  | _, [] => none
  | gap, g :: gs =>
    if isBlank g.char || isBreak g.char then singleRest? (g.char :: gap) gs
    else if atMarker (g :: gs) then none
    else
      let before := fold gap.reverse
      if g.char = '\x27' then match gs with
        | h :: rest =>
          if h.char = '\x27' then (singleRest? [] rest).map fun r => (before ++ '\x27' :: r.1, r.2)
          else some (before, h :: rest)
        | [] => some (before, [])
      else (singleRest? [] gs).map fun r => (before ++ g.char :: r.1, r.2)

/-- What a backslash and one character stand for. -/
def shortEscape? (c : Char) : Option Char :=
  [('0', '\x00'), ('a', '\x07'), ('b', '\x08'), ('t', '\t'), ('\t', '\t'), ('n', '\n'),
    ('v', '\x0b'), ('f', '\x0c'), ('r', '\r'), ('e', '\x1b'), (' ', ' '), ('"', '"'), ('/', '/'),
    ('\\', '\\'), ('N', '\u0085'), ('_', '\u00a0'), ('L', '\u2028'), ('P', '\u2029')].lookup c

/-- How many hexadecimal digits follow a backslash and one character. -/
def escapeDigits? (c : Char) : Option Nat := [('x', 2), ('u', 4), ('U', 8)].lookup c

/-- Where a reader of double quotes stands. -/
inductive QuoteState where
  /-- After blanks and breaks, the last first. If a break was escaped, only other breaks count. -/
  | gap (escaped : Bool) (run : List Char)
  /-- After a backslash. -/
  | escape
  /-- Inside a code point, with digits still to come. -/
  | code (left value : Nat)

/-- The character with a number, unless it is half of a pair or too large. -/
def charOf? (n : Nat) : Option Char := if n.isValidChar then some (.ofNat n) else none

/-- The rest of a text in double quotes. -/
def doubleRest? : QuoteState → List Glyph → Option (List Char × List Glyph)
  | _, [] => none
  | .gap escaped run, g :: gs =>
    if isBlank g.char || isBreak g.char then doubleRest? (.gap escaped (g.char :: run)) gs
    else if atMarker (g :: gs) then none
    else
      let before := if escaped then run.reverse.filter isBreak else fold run.reverse
      if g.char = '"' then some (before, gs)
      else if g.char = '\\' then (doubleRest? .escape gs).map fun r => (before ++ r.1, r.2)
      else (doubleRest? (.gap false []) gs).map fun r => (before ++ g.char :: r.1, r.2)
  | .escape, g :: gs =>
    if isBreak g.char then doubleRest? (.gap true []) gs
    else match shortEscape? g.char, escapeDigits? g.char with
      | some c, _ => (doubleRest? (.gap false []) gs).map fun r => (c :: r.1, r.2)
      | none, some n => doubleRest? (.code n 0) gs
      | none, none => none
  | .code left value, g :: gs => (Uuid.hexValue? g.char).bind fun d =>
    let value := 16*value+d
    if 1 < left then doubleRest? (.code (left-1) value) gs
    else (charOf? value).bind fun c =>
      (doubleRest? (.gap false []) gs).map fun r => (c :: r.1, r.2)

/-! ### Blocks of lines -/

/-- What becomes of the breaks at the end of a block. -/
inductive Chomp where
  | strip
  | clip
  | keep

def chomp? (c : Char) : Option Chomp := [('-', Chomp.strip), ('+', .keep)].lookup c

/-- The digit from 1 to 9 that says how far a block is indented. -/
def indentDigit? (c : Char) : Option Nat :=
  if c.isDigit ∧ c ≠ '0' then some (c.toNat - '0'.toNat) else none

/-- The two marks that may follow the mark of a block, in either order. -/
def blockHeader (gs : List Glyph) : Chomp × Option Nat × List Glyph :=
  match gs with
  | [] => (.clip, none, [])
  | g :: rest =>
    let second := rest.head?.map (·.char)
    match chomp? g.char, indentDigit? g.char with
    | some chomp, _ => match second >>= indentDigit? with
      | some n => (chomp, some n, rest.tail)
      | none => (chomp, none, rest)
    | none, some n => match second >>= chomp? with
      | some chomp => (chomp, some n, rest.tail)
      | none => (.clip, some n, rest)
    | none, none => (.clip, none, gs)

/-- How far the first line that is not empty is indented, or an empty line before it if that is
further. Tabs do not indent. -/
def firstIndent? : List Glyph → Option Nat
  | [] => some 0
  | g :: gs =>
    if g.char = ' ' then (firstIndent? gs).map (max (g.column+1))
    else if g.char = '\t' then none
    else if isBreak g.char then (firstIndent? gs).map (max g.column)
    else some g.column

/-- All lines from a column on, and what is left. -/
def blockLines? (indent : Nat) : List Glyph → Option (List Char × List Glyph)
  | [] => some ([], [])
  | g :: gs =>
    if isBreak g.char ∨ indent ≤ g.column then
      (blockLines? indent gs).map fun r => (g.char :: r.1, r.2)
    else if g.char = ' ' then blockLines? indent gs
    else if g.char = '\t' then none
    else some ([], g :: gs)

/-- Joins the lines of a block. Breaks between two lines that do not begin with a blank are folded,
all others stay. `outer` says whether the last line is such a line; `gap` holds the breaks since
then, the last first, and nothing in the middle of a line. -/
def joinLines : Bool → Option (List Char) → List Char → List Char
  | _, gap, [] => (gap.getD []).reverse
  | outer, gap, c :: cs =>
    if isBreak c then joinLines outer (some (c :: gap.getD [])) cs
    else match gap with
      | none => c :: joinLines outer none cs
      | some run =>
        let next := !isBlank c
        (if outer && next then fold run.reverse else run.reverse) ++ c :: joinLines next none cs

/-- Settles the breaks at the end. One that is clipped to stays only after text. -/
def Chomp.apply (chomp : Chomp) (cs : List Char) : List Char :=
  let body := (cs.reverse.dropWhile isBreak).reverse
  match chomp with
  | strip => body
  | keep => cs
  | clip => if body.isEmpty then [] else cs.take (body.length+1)

/-- How a block is written that begins with a mark. -/
def blockStyle? (c : Char) : Option Style := [('|', Style.literal), ('>', .folded)].lookup c

/-- The lines after the mark of a block. They are indented to the column `margin` at least. -/
def block? (style : Style) (margin : Nat) (gs : List Glyph) : Option (Step String) := do
  let (chomp, indent, rest) := blockHeader gs
  if !atLineEnd rest then none
  else
    let rest := (rest.dropWhile (!isBreak ·.char)).drop 1
    let indent ← match indent with
      | some n => some (margin-1+n)
      | none => (firstIndent? rest).map fun n => max n (max margin 1)
    let (cs, rest) ← blockLines? indent rest
    let cs := if style = .folded then joinLines false (some []) cs else cs
    pure ⟨String.ofList (chomp.apply cs), true, rest⟩

end BehaviourTree.Yaml
