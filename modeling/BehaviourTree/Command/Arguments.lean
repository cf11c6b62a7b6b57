/-!
What the command can be asked to do, and how it is asked.
-/

namespace BehaviourTree.Command

/-- A task and what it needs to know. -/
inductive Task where
  /-- Validate a template and print its structure. -/
  | inspect (template : String)
  /-- Run one instance of a template per agent. Numbers that are given override the settings. -/
  | run (template config : String) (agents ticks : Option UInt64) (trace : Option String)
  /-- Write a starter template. -/
  | init (path : String)
deriving DecidableEq

structure Request where
  verbose : Bool
  task : Task
deriving DecidableEq

/-- Why there is no task. -/
inductive Refusal where
  | help
  | version
  /-- The arguments make no sense. -/
  | usage
deriving DecidableEq

namespace Refusal

/-- How the command is called. -/
def usageLines : List String :=
  ["Usage: arbor [-v] inspect TEMPLATE",
    "       arbor [-v] run TEMPLATE [-c CONFIG] [--agents N] [--ticks N] [--trace FILE]",
    "       arbor [-v] init [FILE]"]

/-- What is printed instead of doing a task. -/
def lines : Refusal → List String
  | help => usageLines
  | version => ["arbor 0.1.0"]
  | usage => []

/-- The exit code. -/
def code : Refusal → UInt32
  | usage => 2
  | _ => 0

end Refusal

/-! ### Options -/

/-- What may follow an option. -/
inductive ValueKind where
  | nothing
  | path
  | number
deriving DecidableEq

/-- A number below 2⁶⁴, perhaps with a plus. -/
def number? (s : String) : Option UInt64 :=
  let digits := match s.toList with
    | '+' :: cs => cs
    | cs => cs
  if digits.isEmpty || !digits.all Char.isDigit then none
  else
    let n := digits.foldl (fun n c => 10*n+(c.toNat - '0'.toNat)) 0
    if n < UInt64.size then some (.ofNat n) else none

def ValueKind.accepts (k : ValueKind) (s : String) : Bool :=
  match k with
  | nothing => false
  | path => !s.isEmpty
  | number => (number? s).isSome

structure OptionSpec where
  name : String
  short : Option Char
  value : ValueKind

def verboseOption : OptionSpec := ⟨"verbose", some 'v', .nothing⟩

/-- The options of one level of the command line, and how many words it takes. -/
structure Level where
  options : List OptionSpec
  words : Nat
  /-- The version can be asked for. -/
  versioned : Bool

/-- Before the name of a task. -/
def outerLevel : Level := ⟨[verboseOption], 0, true⟩

def inspectLevel : Level := ⟨[verboseOption], 1, false⟩

def runLevel : Level :=
  ⟨[verboseOption, ⟨"config", some 'c', .path⟩, ⟨"agents", none, .number⟩, ⟨"ticks", none, .number⟩,
    ⟨"trace", none, .path⟩], 1, false⟩

def initLevel : Level := ⟨[verboseOption], 1, false⟩

/-! ### Reading a level -/

/-- What has been given on a level. An option without a value has an empty one. -/
structure Given where
  options : List (String × String)
  words : List String

namespace Given

def none : Given := ⟨[], []⟩

def has (g : Given) (name : String) : Bool := g.options.any (·.1 = name)

def value? (g : Given) (name : String) : Option String := g.options.lookup name

/-- Adds an option. None may be given twice. -/
def addOption (g : Given) (o : OptionSpec) (value : String) : Except Refusal Given :=
  if g.has o.name then .error .usage
  else if o.value = .nothing ∨ o.value.accepts value then
    .ok { g with options := (o.name, value) :: g.options }
  else .error .usage

/-- Adds a word, if the level takes one more. All words are paths. -/
def addWord (g : Given) (level : Level) (word : String) : Except Refusal Given :=
  if g.words.length < level.words ∧ ValueKind.path.accepts word then
    .ok { g with words := g.words ++ [word] }
  else .error .usage

end Given

/-- Starts with a dash and is more than one. -/
def isDashed (s : String) : Bool := s.startsWith "-" && s ≠ "-"

/-- An option by its long name, with the value after the equals sign. -/
def longOption (level : Level) (g : Given) (name : String) (value : Option String) :
    Except Refusal (Given × Option OptionSpec) :=
  match level.options.find? (·.name = name) with
  | some o => match o.value, value with
    | .nothing, none => (·, none) <$> g.addOption o ""
    | .nothing, some _ => .error .usage
    | _, some v => (·, none) <$> g.addOption o v
    | _, none => .ok (g, some o)
  | none =>
    if value.isSome then .error .usage
    else if name = "help" then .error .help
    else if name = "version" ∧ level.versioned then .error .version
    else .error .usage

/-- Options by their letters behind one dash. What follows the letter of an option with a value is
its value. -/
def shortOptions (level : Level) : Given → List Char → Except Refusal (Given × Option OptionSpec)
  | g, [] => .ok (g, none)
  | g, c :: cs => match level.options.find? (·.short = some c) with
    | some o =>
      if o.value = .nothing then do shortOptions level (← g.addOption o "") cs
      else match cs with
        | [] => .ok (g, some o)
        | '=' :: cs => (·, none) <$> g.addOption o (String.ofList cs)
        | cs => (·, none) <$> g.addOption o (String.ofList cs)
    | none =>
      if c = 'h' then .error .help
      else if c = 'V' ∧ level.versioned then .error .version
      else .error .usage

/-- The options of a dashed argument. The last of them may still wait for its value. -/
def dashed (level : Level) (g : Given) (a : String) : Except Refusal (Given × Option OptionSpec) :=
  match a.toList with
  | '-' :: '-' :: cs =>
    let (name, value) := cs.span (· ≠ '=')
    longOption level g (String.ofList name)
      (if value.isEmpty then none else some (String.ofList (value.drop 1)))
  | cs => shortOptions level g (cs.drop 1)

/-- Reads arguments; `waiting` is an option whose value comes next. On a level without words the
first word ends it and is left with the rest. -/
def readLevel (level : Level) :
    Option OptionSpec → Given → List String → Except Refusal (Given × List String)
  | none, g, [] => .ok (g, [])
  | some _, _, [] => .error .usage
  | some o, g, a :: rest =>
    if isDashed a then .error .usage
    else do readLevel level none (← g.addOption o a) rest
  | none, g, a :: rest =>
    if a = "--" then do
      let g ← rest.foldlM (fun g word => g.addWord level word) g
      pure (g, [])
    else if isDashed a then do
      let (g, waiting) ← dashed level g a
      readLevel level waiting g rest
    else if level.words = 0 then .ok (g, a :: rest)
    else do readLevel level none (← g.addWord level a) rest

/-! ### Tasks -/

/-- The word that a task cannot do without. -/
def onlyWord (g : Given) : Except Refusal String :=
  match g.words with
  | [w] => .ok w
  | _ => .error .usage

/-- The settings that are used unless others are named. -/
def defaultConfig : String := "arbor.yaml"

/-- Where the starter template goes unless a place is named. -/
def defaultTemplate : String := "tree.yaml"

/-- What there is help on. -/
def taskNames : List String := ["inspect", "run", "init", "help"]

/-- Reads the arguments of a task. -/
def readTask (verbose : Bool) (name : String) (arguments : List String) :
    Except Refusal Request := do
  let read (level : Level) : Except Refusal (Given × Bool) := do
    let (g, _) ← readLevel level none .none arguments
    pure (g, verbose || g.has verboseOption.name)
  match name with
  | "inspect" =>
    let (g, verbose) ← read inspectLevel
    pure ⟨verbose, .inspect (← onlyWord g)⟩
  | "run" =>
    let (g, verbose) ← read runLevel
    pure ⟨verbose, .run (← onlyWord g) ((g.value? "config").getD defaultConfig)
      (g.value? "agents" >>= number?) (g.value? "ticks" >>= number?) (g.value? "trace")⟩
  | "init" =>
    let (g, verbose) ← read initLevel
    pure ⟨verbose, .init (g.words.head?.getD defaultTemplate)⟩
  | "help" => .error (if arguments.all taskNames.contains ∧ arguments.length ≤ 1 then .help
    else .usage)
  | _ => .error .usage

/-- Reads the arguments of the command. -/
def readRequest (arguments : List String) : Except Refusal Request := do
  let (g, rest) ← readLevel outerLevel none .none arguments
  match rest with
  | name :: rest => readTask (g.has verboseOption.name) name rest
  | [] => .error .usage

end BehaviourTree.Command
