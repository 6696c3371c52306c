import Relock.CallGraph.Component
import Relock.CallGraph.Dot
import Relock.Command.Request
import Relock.Command.Storage
import Relock.Journal
import Relock.Pattern.Decoder
import Relock.Program.OfSource
import Relock.Report.LockTable

/-!
# Running a command

A command reads its files, does its task and writes one output: to a file if asked to, else to the
standard output. What it does is a function of the words and of what stands in the file tree.

The status is 0 if nothing was found, 1 if errors were reported, and 2 if the command could not do
its task; then an error line says why, except for words that make no sense.
-/

namespace Relock.Command

/-- The outcome of a command. -/
structure Outcome where
  status : Nat
  output : String := ""
  log : List LogLine := []
  written : Option (FilePlace × String) := none
  deriving Inhabited

/-- Where a command runs: its working directory, and what stands at each place. -/
structure Surroundings where
  here : FilePlace
  look : FilePlace → FileEntry

/-- The version line. -/
def versionText : String := "irlock 0.4.0\n"

/-- The help text. -/
def helpText : String :=
  "usage: irlock [-h] [--version] [-v] <command> ...\n\n" ++
  "commands:\n" ++
  "  scan       Detect double locks.\n" ++
  "  locks      List recognised lock sites.\n" ++
  "  callgraph  Show the call graph.\n"

/-! ## Steps of a command -/

/-- A step: it adds lines to the log, and the command goes on or ends with the status 2. -/
abbrev Step := ExceptT Unit (StateM (List LogLine))

/-- Adds lines to the log. -/
def tell (lines : List LogLine) : Step Unit := modify (· ++ lines)

/-- Ends the command with an error line. -/
def fail {α : Type} (message : String) : Step α := do
  tell [⟨.error, .command, message⟩]
  throw ()

/-- Ends the command for a cause that it does not foresee. -/
def failUnforeseen {α : Type} (reason : String) : Step α := fail s!"Unhandled exception: {reason}"

/-- The place of a file that has to exist. -/
def existing (s : Surroundings) (label word : String) : Step FilePlace := do
  let place := s.here.resolve word
  if (s.look place).exists then return place else fail s!"{label} not found: {place.text}"

/-- Reads a pattern table. -/
def loadTable (s : Surroundings) (word : String) : Step PatternTable := do
  let place ← existing s "pattern table" word
  let table : Except Pattern.Error PatternTable := match readText s.look place with
    | .error fault => .error ⟨place.text, .noText fault.message⟩
    | .ok text => PatternTable.parse place.text text
  match table with
  | .error e =>
    if e.fault.isTyped then fail s!"Failed to load pattern table: {e.message}"
    else failUnforeseen e.message
  | .ok table => do
    tell (table.journal place.text)
    return table

/-- The settings that choices make. An empty word for the pattern table is as good as none. -/
def loadConfig (s : Surroundings) (choices : Choices) : Step Config := do
  let table ← match choices.patterns with
    | none | some "" => pure PatternTable.builtin
    | some word => loadTable s word
  match Config.override { patterns := table } choices.changes with
  | .error fault => failUnforeseen fault.message
  | .ok config => return config

/-- Ends the command for a text that is no program. -/
def refuseProgram {α : Type} (e : Source.Error) : Step α :=
  if e.fault.isTyped then fail s!"Failed to parse IR: {e.message}" else failUnforeseen e.message

/-- Reads a program. -/
def loadProgram (s : Surroundings) (place : FilePlace) : Step Program := do
  tell [⟨.info, .command, s!"Loading IR: {place.text}"⟩]
  match readText s.look place with
  | .error fault => refuseProgram ⟨.file place.text, .noText fault.message⟩
  | .ok text =>
    tell (Source.journal place.text text)
    match Program.load place.text text with
    | .error e => refuseProgram e
    | .ok p =>
      tell p.loadJournal
      return p

/-- Reads the inputs. The file of the program has to exist before the pattern table is looked at. -/
def loadInputs (s : Surroundings) (choices : Choices) : Step (Program × Config) := do
  let place ← existing s "IR file" choices.file
  let config ← loadConfig s choices
  return (← loadProgram s place, config)

/-- The double-lock check alone. -/
def analyse (p : Program) (config : Config) (suppressions : Suppressions) : Step Detection := do
  let d := p.detect config .structural suppressions [.doubleLock]
  tell (p.detectJournal config d)
  return d

/-- The outcome of writing a text: to a file, or to the standard output if no file or a hyphen is
named. -/
def deliver (s : Surroundings) (choices : Choices) (status : Nat) (text : String) : Step Outcome :=
  match choices.output with
  | none | some "-" => return { status := status, output := text }
  | some word =>
    let place := s.here.resolve word
    match checkWritable s.look place with
    | .error fault => failUnforeseen fault.message
    | .ok () => return { status := status, written := some (place, text) }

/-! ## Tasks -/

/-- Reports double locks. Text is coloured only if asked for. -/
def scan (s : Surroundings) (choices : Choices) : Step Outcome := do
  let (p, config) ← loadInputs s choices
  let d ← analyse p config (Suppressions.ofSpecs choices.suppress)
  tell (d.notes.map fun note => ⟨.info, .command, s!"note: {note.text}"⟩)
  let text := writeAll choices.format (choices.colours.getD false) d.diagnostics
  let outcome ← deliver s choices (if d.errorCount = 0 then 0 else 1) text
  tell [⟨.info, .command, d.summary⟩]
  return outcome

/-- Lists lock sites. -/
def locks (s : Surroundings) (choices : Choices) : Step Outcome := do
  let (p, config) ← loadInputs s choices
  let d ← analyse p config {}
  let rows := p.lockRows d
  deliver s choices 0 (if choices.format = .json then lockTableRecords rows else lockTableText rows)

/-- Shows the call graph. -/
def callGraph (s : Surroundings) (choices : Choices) : Step Outcome := do
  let (p, _) ← loadInputs s choices
  let g := p.callGraph
  tell g.journal
  deliver s choices 0 (if choices.dot then g.dot p.name ++ "\n"
    else String.join (g.statistics.rows.map fun (key, n) => s!"{key}: {n}\n"))

def Task.steps (s : Surroundings) : Task → Choices → Step Outcome
  | scan => Command.scan s
  | locks => Command.locks s
  | callGraph => Command.callGraph s

/-- The least level that is shown. -/
def threshold : (verbosity : Nat) → LogLevel
  | 0 => .warning
  | 1 => .info
  | _ => .debug

/-- Runs the steps of a command and keeps the lines of the log that are shown. -/
def execute (verbosity : Nat) (steps : Step Outcome) : Outcome :=
  let (result, log) := steps.run.run []
  let shown := log.filter fun line => (threshold verbosity).rank ≤ line.level.rank
  match result with
  | .ok outcome => { outcome with log := shown }
  | .error () => { status := 2, log := shown }

/-- Runs a command line. -/
def run (s : Surroundings) (words : List String) : Outcome :=
  match Request.parse words with
  | .error .misuse => { status := 2 }
  | .error .help => { status := 0, output := helpText }
  | .error .version => { status := 0, output := versionText }
  | .ok request => match request.task with
    | none => { status := 2 }
    | some (task, choices) => execute request.verbosity (task.steps s choices)

/-- The places that a command line looks at. -/
def placesOf (here : FilePlace) (words : List String) : List FilePlace :=
  match Request.parse words with
  | .ok { task := some (_, choices), .. } =>
    let output := choices.output.toList.map here.resolve
    [here.resolve choices.file] ++ choices.patterns.toList.map here.resolve ++ output ++
      output.map FilePlace.parent
  | _ => []

end Relock.Command
