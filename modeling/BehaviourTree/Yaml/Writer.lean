import BehaviourTree.Document.Basic
import BehaviourTree.Uuid
import BehaviourTree.Yaml.Glyph
import BehaviourTree.Yaml.Plain

/-!
Writing documents as YAML, with a line for every item and every part. A text is written plainly
where it is then read as the same text.
-/

namespace BehaviourTree.Yaml

/-- Numbers of single precision: a point always, and an exponent without a plus outside of 10⁻⁶ to
10¹². -/
def singles : Decimal.Layout := ⟨some (-6, 12), true, false, ".nan", ".inf", "-.inf"⟩

/-! ### What a text allows -/

/-- Shown by itself wherever it stands. -/
def isPrintable (c : Char) : Bool :=
  let n := c.toNat
  n = 10 || 0x20 ≤ n && n ≤ 0x7e || 0xa0 ≤ n && n ≤ 0xfffd && c ≠ byteOrderMark || 0x10000 ≤ n

def isGap (c : Char) : Bool := isBlank c || isBreak c

/-- Neighbours in a text. -/
def pairs (cs : List Char) : List (Char × Char) := cs.zip cs.tail

/-- Has characters that only double quotes show: unprintable ones, or a blank that would be lost at
the end of a line. -/
def needsEscapes (cs : List Char) : Bool :=
  cs.any (!isPrintable ·) || (pairs cs).any fun p => p.1 = ' ' && isBreak p.2

/-- A line after the first begins with a blank. -/
def hasIndentedLine (cs : List Char) : Bool := (pairs cs).any fun p => isBreak p.1 && p.2 = ' '

/-- A dash, a question mark or a colon that stands alone at the start. -/
def startsAlone : List Char → Bool
  | c :: cs => "-?:".toList.contains c && (cs.head?.map isGap).getD true
  | [] => false

/-- Would be read as a part of the structure. -/
def looksStructured (cs : List Char) : Bool :=
  "---".toList.isPrefixOf cs || "...".toList.isPrefixOf cs || startsAlone cs ||
    (cs.head?.map fun c => ",[]\x7b\x7d#&*!|>\x27\"%@\x60".toList.contains c).getD false ||
    cs.getLast? == some ':' ||
    (pairs cs).any fun p => p.1 = ':' && isGap p.2 || isGap p.1 && p.2 = '#'

/-- Begins or ends with a blank or a break. -/
def hasLooseEnd (cs : List Char) : Bool :=
  (cs.head?.map isGap).getD false || (cs.getLast?.map isGap).getD false

def allowsPlain (cs : List Char) : Bool :=
  !needsEscapes cs && !hasLooseEnd cs && !looksStructured cs && !cs.any isBreak

def allowsSingle (cs : List Char) : Bool := !needsEscapes cs && !hasIndentedLine cs

def allowsBlock (cs : List Char) : Bool := !needsEscapes cs && cs.getLast? != some ' '

/-- A whole number of up to 128 bits in a base of its own. -/
def isBased (cs : List Char) : Bool :=
  match cs with
  | '-' :: rest => ((Plain.based? rest).map fun n => decide (n ≤ Nat.pow 2 127)).getD false
  | cs => ((Plain.based? (Plain.withoutPlus cs)).map fun n => decide (n < Nat.pow 2 128)).getD false

/-- Would stand for something else if it were plain, or looks as if it did. -/
def standsForOther (s : String) : Bool :=
  Plain.isNull s || (Plain.flag? s).isSome || isBased s.toList || Plain.hasLeadingZero s.toList ||
    (Plain.double? s).isSome

/-! ### The forms of a text -/

/-- Indents what follows a break, empty lines apart. -/
def indentLines (indent : Nat) : List Char → List Char
  | [] => []
  | c :: cs =>
    let rest := indentLines indent cs
    if isBreak c && (cs.head?.map (!isBreak ·)).getD false then
      c :: List.replicate indent ' ' ++ rest
    else c :: rest

def singleQuoted (indent : Nat) (cs : List Char) : List Char :=
  let doubled := cs.flatMap fun c => if c = '\x27' then [c, c] else [c]
  '\x27' :: indentLines indent (doubled ++ ['\x27'])

/-- The short escapes of characters that are not shown by themselves. -/
def shortEscapes : List (Char × Char) :=
  [('\x00', '0'), ('\x07', 'a'), ('\x08', 'b'), ('\t', 't'), ('\n', 'n'), ('\x0b', 'v'),
    ('\x0c', 'f'), ('\r', 'r'), ('\x1b', 'e'), ('"', '"'), ('\\', '\\'), ('\u0085', 'N'),
    ('\u2028', 'L'), ('\u2029', 'P')]

def upperHex (digits n : Nat) : List Char := (Uuid.hexDigits digits n).map Char.toUpper

/-- The form of a character inside double quotes. -/
def escapeChar (c : Char) : List Char :=
  match shortEscapes.lookup c with
  | some e => ['\\', e]
  | none =>
    let n := c.toNat
    if isPrintable c then [c]
    else if n < 0x100 then '\\' :: 'x' :: upperHex 2 n
    else if n < 0x10000 then '\\' :: 'u' :: upperHex 4 n
    else '\\' :: 'U' :: upperHex 8 n

def doubleQuoted (cs : List Char) : List Char := '"' :: cs.flatMap escapeChar ++ ['"']

/-- What follows the bar of a block: how far it is indented if that does not show, and what becomes
of the breaks at its end if not just one is kept. -/
def blockMarks (cs : List Char) : List Char :=
  let indent := if (cs.head?.map fun c => c = ' ' || isBreak c).getD false then ['2'] else []
  let chomp := match cs.reverse with
    | [] => ['-']
    | [c] => if isBreak c then ['+'] else ['-']
    | c :: d :: _ => if isBreak c then (if isBreak d then ['+'] else []) else ['-']
  indent ++ chomp

/-- The lines of a block. -/
def block (indent : Nat) (cs : List Char) : List Char :=
  '|' :: blockMarks cs ++ indentLines indent ('\n' :: cs)

/-- A text in the simplest form it allows. Further lines get an indentation. -/
def textForm (indent : Nat) (s : String) : String :=
  let cs := s.toList
  if cs.contains '\n' then .ofList (if allowsBlock cs then block indent cs else doubleQuoted cs)
  else if allowsPlain cs && !standsForOther s then s
  else .ofList (if allowsSingle cs then singleQuoted indent cs else doubleQuoted cs)

/-! ### Documents -/

/-- How much deeper the parts of a record inside a record stand. -/
def indentStep : Nat := 2

/-- A document that fits behind a name or a dash, as it is written there. -/
def shortForm? (indent : Nat) : Document → Option String
  | .text s => some (textForm (indent+indentStep) s)
  | .flag b => some (toString b)
  | .natural n => some (toString n)
  | .single x => some (singles.text x)
  | .list [] => some "[]"
  | .record [] => some "\x7b\x7d"
  | .list (_ :: _) | .record (_ :: _) => none

/-- Ends a line that does not end in a break already. -/
def endLine (s : String) : String :=
  if (s.toList.getLast?.map isBreak).getD false then s else s ++ "\n"

/-- Starts a line with its indentation. -/
def indented (indent : Nat) (s : String) : String := "".pushn ' ' indent ++ s

/-- Puts texts below each other. The first stands where it is put. -/
def stack (indent : Nat) : List String → String
  | [] => ""
  | [s] => s
  | s :: more => endLine s ++ indented indent (stack indent more)

mutual

/-- The lines of a list or a record, all but the first indented. -/
def lines (indent : Nat) : Document → String
  | .list items => stack indent (itemLines indent items)
  | .record parts => stack indent (partLines indent parts)
  | _ => ""

/-- The items of a list, each after a dash. -/
def itemLines (indent : Nat) : List Document → List String
  | [] => []
  | d :: ds =>
    let body := match shortForm? indent d with
      | some s => s
      | none => lines (indent+indentStep) d
    ("- " ++ body) :: itemLines indent ds

/-- The parts of a record. A list stands right below its name, a record is indented. -/
def partLines (indent : Nat) : List (String × Document) → List String
  | [] => []
  | (name, d) :: ds =>
    let body := match shortForm? indent d, d with
      | some s, _ => " " ++ s
      | none, .list items => "\n" ++ indented indent (stack indent (itemLines indent items))
      | none, d => "\n" ++ indented (indent+indentStep) (lines (indent+indentStep) d)
    (textForm 0 name ++ ":" ++ body) :: partLines indent ds

end

/-- The text of a document, which ends with a line break. -/
def written (d : Document) : String := endLine (match shortForm? 0 d with
  | some s => s
  | none => lines 0 d)

end BehaviourTree.Yaml
