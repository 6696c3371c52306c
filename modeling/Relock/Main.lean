import Relock.Command.Run

/-!
# The command line program

Looks at the places that the words name, runs the command on what stands there, and writes what it
gives: the log to the standard error output, the output to a file or to the standard output.
-/

namespace Relock.Command

/-- The place of the working directory. -/
def workingPlace : IO FilePlace := do
  return FilePlace.resolve {} (← IO.currentDir).toString

/-- The places above a place, and the place itself. -/
def pathTo (place : FilePlace) : List FilePlace :=
  (List.range (place.names.length + 1)).map fun n => { place with names := place.names.take n }

/-- What stands at a place. -/
def lookAt (place : FilePlace) : IO FileEntry := do
  let base ← IO.currentDir
  let path := base / place.text
  if ← path.isDir then return .directory
  if ← path.pathExists then return .file (← IO.FS.readBinFile path).toList
  for above in pathTo place.parent do
    let path := base / above.text
    if (← path.pathExists) && !(← path.isDir) then return .blocked
  return .missing

/-- What stands at some places. -/
def lookAtAll (places : List FilePlace) : IO (List (FilePlace × FileEntry)) :=
  places.mapM fun place => return (place, ← lookAt place)

/-- Writes a file and makes the directories above it. -/
def store (place : FilePlace) (text : String) : IO Unit := do
  IO.FS.createDirAll place.parent.text
  IO.FS.writeFile place.text text

/-- Runs a command line in the world and gives its status. -/
def perform (words : List String) : IO UInt32 := do
  let here ← workingPlace
  let entries ← lookAtAll (placesOf here words)
  let look (place : FilePlace) : FileEntry :=
    ((entries.find? fun e => e.1 = place).map (·.2)).getD .missing
  let outcome := run ⟨here, look⟩ words
  for line in outcome.log do IO.eprintln line.text
  IO.print outcome.output
  match outcome.written with
  | some (place, text) => store place text
  | none => pure ()
  return UInt32.ofNat outcome.status

end Relock.Command

/-- The program. -/
def main (words : List String) : IO UInt32 := Relock.Command.perform words
