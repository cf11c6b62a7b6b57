import BehaviourTree.Command.Arguments
import BehaviourTree.Command.Report
import BehaviourTree.Command.Starter
import BehaviourTree.Demo.Registry
import BehaviourTree.Document.File
import BehaviourTree.Outline
import BehaviourTree.Template.Build

/-!
Plans: what the command does to the world outside, step by step. A plan depends on nothing but the
task, the files that are there, and a supply of fresh identifiers.
-/

namespace BehaviourTree.Command

inductive LogLevel where
  | debug
  | info
  | warn
deriving DecidableEq

def LogLevel.name : LogLevel → String
  | debug => "DEBUG"
  | info => "INFO"
  | warn => "WARN"

inductive Effect where
  | print (line : String)
  | log (level : LogLevel) (message : String)
  /-- Writes a text into a file. If that fails, the command fails for the given reason. -/
  | write (path text : String) (fault : FileFault)

/-- What an effect adds to the output at a given time. The log goes where all else is printed. -/
def Effect.shown? (time : String) : Effect → Option String
  | print line => some line
  | log level message => some (time ++ " " ++ alignRight 5 level.name ++ " " ++ message)
  | write .. => none

/-- Effects in order, and why the command fails after them if it does. -/
structure Plan where
  effects : List Effect
  failure : Option String

namespace Plan

def fail (reason : String) : Plan := ⟨[], some reason⟩

def done (effects : List Effect) : Plan := ⟨effects, none⟩

end Plan

/-- The only values on the blackboards of the command are flags. -/
def flag : Demo.FlagType fun _ : Unit => Bool := Demo.flagsOnly

/-- Trees of the command have the ready-made leaves. -/
abbrev host : Host := Demo.host flag

/-- The team that all agents report to. -/
def team : TeamId := 0

/-- The tree of a template that has been found under a path. -/
def loadTree (path : String) (found : Found) : Minting (Except String (Tree host)) := do
  match TreeTemplate.load path found with
  | .error fault => pure (.error fault.message)
  | .ok template => match ← Tree.ofTemplate (Demo.registry flag team) template with
    | .error _ => pure (.error s!"Invalid tree template {path}")
    | .ok tree => pure (.ok tree)

/-! ### Inspecting -/

def inspect (path : String) (found : Found) : Minting Plan := do
  match ← loadTree path found with
  | .error reason => pure (.fail reason)
  | .ok tree =>
    let lines := [s!"Tree: {path}", s!"Nodes: {tree.size}", ""] ++ tree.outlineLines
    pure (.done (lines.map .print))

/-! ### Running -/

/-- The name of the recording of the first agent. -/
def recording : String := "first agent"

/-- Those who listen to a tree: a recorder to that of the first agent, and the log to all if it is
to tell everything. -/
def listeners (verbose first : Bool) : List Listener :=
  (if first then [.recorder recording] else []) ++ if verbose then [.logger] else []

/-- The agents of a simulation, numbered from 0, each with its own instance of the tree. -/
def population (verbose : Bool) (config : RuntimeConfig) (tree : Tree host) :
    Minting (List (Agent host)) :=
  (List.range config.agents.toNat).mapM fun i => do
    let agent ← Agent.ofConfig ⟨.ofNat i⟩ tree config
    let listen (t : Tree host) : Tree host :=
      (listeners verbose (i == 0)).foldl Tree.subscribeAll t
    pure { agent with tree := agent.tree.map listen }

/-- The whole simulation of a tree. -/
def simulate (verbose : Bool) (config : RuntimeConfig) (tree : Tree host) :
    Minting (Simulation host) := do
  let agents ← population verbose config tree
  let start : Simulation host :=
    .start config.dt agents (TeamBoards.empty.create team) (Recordings.empty.start recording)
  pure (start.run config.ticks.toNat)

/-- What the log says of something that happens in a tick, if it says anything. -/
def logged? : TraceItem host → Option Effect
  | .warning w => some (.log .warn (w.message ++ match w.node? with
    | some id => s!" node={id.text}"
    | none => ""))
  | .note (.heard e) => some (.log .debug
    s!"{Listener.logMessage} tick={e.tick} node={e.node.text} status={e.status.name}")
  | _ => none

/-- Writes the recording of the first agent. -/
def writeTrace (path : String) (recorded : TraceLog) : List Effect :=
  [.write path (Json.pretty 0 recorded.toDocument) (.unwritable "trace" path),
    .log .info s!"Wrote trace events={recorded.size} path={path}"]

def run (verbose : Bool) (path : String) (config : RuntimeConfig) (trace : Option String)
    (found : Found) : Minting Plan := do
  match ← loadTree path found with
  | .error reason => pure (.fail reason)
  | .ok tree =>
    let s ← simulate verbose config tree
    let announced := s!"Starting simulation template={path} agents={config.agents} " ++
      s!"ticks={config.ticks} seed={config.seed}"
    let reports := ((s.world.get? team).map TeamBoard.toList).getD []
    pure (.done (.log .info announced :: s.trace.filterMap logged? ++
      (reportLines config.ticks s reports).map .print ++
      (trace.map fun path => writeTrace path (s.audience.take recording).1).getD []))

/-! ### Starting out -/

def init (path : String) (found : Found) : Plan :=
  if found.exists? then .fail s!"{path} already exists"
  else .done (.write path starterTemplate (.unwritable "template" path) ::
    [s!"Wrote starter template to {path}", "", "Next steps:", s!"  arbor inspect {path}",
      s!"  arbor run {path} --agents 4 --ticks 30"].map .print)

/-! ### All tasks -/

/-- The paths that a task looks at before it does anything. -/
def Task.reads : Task → List String
  | .inspect template => [template]
  | .run template config .. => [config, template]
  | .init path => [path]

/-- Settings with some numbers overridden. -/
def override (config : RuntimeConfig) (agents ticks : Option UInt64) : RuntimeConfig :=
  { config with agents := agents.getD config.agents, ticks := ticks.getD config.ticks }

/-- The plan for a request; `look` says what is under the paths that the task reads. -/
def Request.plan (r : Request) (look : String → Found) : Minting Plan :=
  match r.task with
  | .inspect template => inspect template (look template)
  | .run template config agents ticks trace =>
    match RuntimeConfig.loadOrStandard config (look config) with
    | .error fault => pure (.fail fault.message)
    | .ok settings =>
      run r.verbose template (override settings agents ticks) trace (look template)
  | .init path => pure (init path (look path))

end BehaviourTree.Command
