import BehaviourTree.Command.Plan
import BehaviourTree.Supply
import Std.Time.Format

/-!
The command line.
-/

namespace BehaviourTree.Command

/-- Looks at a path. What is there and cannot be read counts as a folder. -/
def find (path : String) : IO Found := do
  try return .file (← IO.FS.readBinFile path)
  catch _ =>
    try
      discard (IO.FS.realPath path)
      return .folder
    catch _ => return .nothing

/-- A supply from the system's source of randomness. -/
def randomSupply : IO IdSupply := do
  let word : IO UInt64 := return (← IO.getRandomBytes 8).toUInt64LE!
  return .ofWords (← word) (← word)

/-- The time to a millionth of a second. -/
def now : IO String := do
  let moment := Std.Time.DateTime.ofTimestamp (← Std.Time.Timestamp.now) .UTC
  return moment.toPlainDateTime.format "uuuu-MM-dd'T'HH:mm:ss.SSSSSS'Z'"

/-- Carries out effects until one fails; the answer is why. -/
def carryOut : List Effect → IO (Option String)
  | [] => return none
  | .write path text fault :: rest => do
    try IO.FS.writeFile path text
    catch _ => return some fault.message
    carryOut rest
  | e :: rest => do
    (e.shown? (← now)).forM IO.println
    carryOut rest

/-- Does what the arguments ask for and gives the exit code. -/
def execute (arguments : List String) : IO UInt32 := do
  match readRequest arguments with
  | .error refusal =>
    if refusal = .usage then Refusal.usageLines.forM IO.eprintln
    else refusal.lines.forM IO.println
    return refusal.code
  | .ok request =>
    let found ← request.task.reads.mapM fun path => return (path, ← find path)
    let (plan, _) := request.plan (fun path => (found.lookup path).getD .nothing) (← randomSupply)
    match (← carryOut plan.effects).or plan.failure with
    | some reason => do IO.eprintln ("Error: " ++ reason); return 1
    | none => return 0

end BehaviourTree.Command

def main (arguments : List String) : IO UInt32 := BehaviourTree.Command.execute arguments
