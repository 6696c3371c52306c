import Relock.Command.Grammar
import Relock.Config
import Relock.Number.Literal
import Relock.Report.Writer

/-!
# Requests

What a command line asks for: a task with its file and options, and how much to tell about the work.
The options of the whole command come before the name of the task.
-/

namespace Relock.Command

/-- The tasks. -/
inductive Task where
  /-- Report double locks. -/
  | scan
  /-- List lock sites. -/
  | locks
  /-- Show the call graph. -/
  | callGraph
  deriving DecidableEq, Repr, Inhabited

/-- What the words after the name of a task say. -/
structure Choices where
  file : String := ""
  patterns : Option String := none
  output : Option String := none
  changes : Config.Overrides := {}
  format : Format := .text
  suppress : List String := []
  colours : Option Bool := none
  dot : Bool := false
  deriving Inhabited

/-- What a command line asks for. -/
structure Request where
  verbosity : Nat := 0
  task : Option (Task × Choices) := none
  deriving Inhabited

/-! ## Options of tasks -/

/-- The options of tasks. -/
inductive TaskOption where
  | help
  | patterns
  | output
  | maxSteps
  | maxWrapperDepth
  | noWrappers
  | localOnly
  | descendIntoLibrary
  | format
  | suppress
  | colours (on : Bool)
  | dot
  deriving DecidableEq, Repr, Inhabited

namespace TaskOption

def takesValue : TaskOption → Bool
  | patterns | output | maxSteps | maxWrapperDepth | format | suppress => true
  | _ => false

/-- The options that every task has. -/
def shared : List (String × TaskOption) :=
  [("-h", help), ("--help", help), ("--patterns", patterns), ("-o", output), ("--output", output)]

/-- The options that set limits of the analysis. -/
def tuning : List (String × TaskOption) :=
  [("--max-steps", maxSteps), ("--max-wrapper-depth", maxWrapperDepth),
    ("--no-wrappers", noWrappers), ("--local-only", localOnly),
    ("--descend-into-library", descendIntoLibrary)]

/-- The options that choose an output format. -/
def formats : List (String × TaskOption) := [("-f", format), ("--format", format)]

end TaskOption

namespace Task

def ofName? : String → Option Task
  | "scan" => some scan
  | "locks" => some locks
  | "callgraph" => some callGraph
  | _ => none

/-- The options of a task by name. -/
def options : Task → List (String × TaskOption)
  | scan => TaskOption.shared ++ TaskOption.tuning ++ TaskOption.formats ++
      [("--suppress", .suppress), ("--color", .colours true), ("--no-color", .colours false)]
  | locks => TaskOption.shared ++ TaskOption.tuning ++ TaskOption.formats
  | callGraph => TaskOption.shared ++ [("--dot", .dot)]

/-- The output formats of a task. -/
def outputFormats : Task → List Format
  | scan => Format.all
  | locks => [.text, .json]
  | callGraph => []

end Task

/-- A value that has to be there and readable. -/
def required {α : Type} : Option α → Except Stop α
  | some a => .ok a
  | none => .error .misuse

/-- Takes an option of a task into account. The last value of an option counts; suppressions add up,
and only one choice about colours may be made. -/
def Choices.applyOption (task : Task) (key : TaskOption) (value : Option String) (c : Choices) :
    Except Stop Choices := do
  match key with
  | .help => .error .help
  | .patterns => return { c with patterns := value }
  | .output => return { c with output := value }
  | .maxSteps =>
    let n ← required (value.bind Number.integer?)
    return { c with changes := { c.changes with maxSteps := some n } }
  | .maxWrapperDepth =>
    let n ← required (value.bind Number.integer?)
    return { c with changes := { c.changes with maxWrapperDepth := some n } }
  | .noWrappers => return { c with changes := { c.changes with propagateWrappers := some false } }
  | .localOnly => return { c with changes := { c.changes with localOnly := some true } }
  | .descendIntoLibrary =>
    return { c with changes := { c.changes with descendIntoLibrary := some true } }
  | .format =>
    let format ← required (value.bind Format.ofName?)
    if format ∈ task.outputFormats then return { c with format := format } else .error .misuse
  | .suppress => return { c with suppress := c.suppress ++ value.toList }
  | .colours on =>
    if c.colours = some (!on) then .error .misuse else return { c with colours := some on }
  | .dot => return { c with dot := true }

/-- The level of a task: its options and one file. -/
def Task.grammar (task : Task) : Grammar TaskOption Choices :=
  { options := task.options
    takesValue := TaskOption.takesValue
    applyOption := Choices.applyOption task
    applyOperand := fun words c => match words with
      | [file] => .ok { c with file := file }
      | _ => .error .misuse
    takesRest := false }

/-- The choices for a task. The file is required, and no word may be left over. -/
def Task.choices (task : Task) (words : List String) : Except Stop Choices := do
  let reading ← task.grammar.read words {}
  if reading.isOpen || !reading.leftOver.isEmpty then .error .misuse else return reading.state

/-! ## Options of the whole command -/

/-- The options before the name of the task. -/
inductive GlobalOption where
  | help | version | verbose
  deriving DecidableEq, Repr, Inhabited

/-- Takes an option of the whole command into account. -/
def Request.applyOption (key : GlobalOption) (_ : Option String) (r : Request) :
    Except Stop Request :=
  match key with
  | .help => .error .help
  | .version => .error .version
  | .verbose => .ok { r with verbosity := r.verbosity + 1 }

/-- Reads the name of the task and what follows it. -/
def Request.applyTask (words : List String) (r : Request) : Except Stop Request :=
  match words with
  | [] => .error .misuse
  | name :: words => do
    let task ← required (Task.ofName? name)
    return { r with task := some (task, ← task.choices words) }

/-- The level of the whole command. -/
def globalGrammar : Grammar GlobalOption Request :=
  { options := [("-h", .help), ("--help", .help), ("--version", .version), ("-v", .verbose),
    ("--verbose", .verbose)]
    takesValue := fun _ => false
    applyOption := Request.applyOption
    applyOperand := Request.applyTask
    takesRest := true }

/-- Reads a command line. -/
def Request.parse (words : List String) : Except Stop Request := do
  let reading ← globalGrammar.read words {}
  if reading.leftOver.isEmpty then return reading.state else .error .misuse

end Relock.Command
