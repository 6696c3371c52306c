import Relock.Diagnostic
import Relock.Glob
import Relock.Keyed

/-!
# Suppressions

Diagnostics can be silenced by their error id: everywhere, in files that match a glob, or when a
function of the call chain matches a glob. The id `*` stands for every id. A specification is an id
alone, an id and a file glob after a colon, or an id and a function glob after an at sign; the first
at sign divides, else the first colon.
-/

namespace Relock

/-- What is silenced: ids everywhere, and ids by glob for files and for functions. -/
structure Suppressions where
  everywhere : List String := []
  byFile : Keyed String (List String) := []
  byFunction : Keyed String (List String) := []
  deriving DecidableEq, Repr, Inhabited

namespace Suppressions

/-- Adds an id to a set of ids. -/
def addId (id : String) (ids : List String) : List String := if id ∈ ids then ids else ids ++ [id]

def addEverywhere (s : Suppressions) (id : String) : Suppressions :=
  { s with everywhere := addId id s.everywhere }

def addFile (s : Suppressions) (id glob : String) : Suppressions :=
  { s with byFile := Keyed.update s.byFile glob [] (addId id) }

def addFunction (s : Suppressions) (id glob : String) : Suppressions :=
  { s with byFunction := Keyed.update s.byFunction glob [] (addId id) }

/-- The text before and after the first occurrence of a character. -/
def splitAt? (mark : Char) (text : String) : Option (String × String) :=
  let cs := text.toList
  if cs.contains mark then
    some (String.ofList (cs.takeWhile (· ≠ mark)), String.ofList ((cs.dropWhile (· ≠ mark)).drop 1))
  else none

/-- Adds what a specification says. -/
def addSpec (s : Suppressions) (spec : String) : Suppressions :=
  match splitAt? '@' spec with
  | some (id, glob) => s.addFunction id glob
  | none => match splitAt? ':' spec with
    | some (id, glob) => s.addFile id glob
    | none => s.addEverywhere spec

/-- The suppressions that specifications say. -/
def ofSpecs (specs : List String) : Suppressions := specs.foldl addSpec {}

/-- Whether a set of ids covers an id. -/
def covers (ids : List String) (id : String) : Bool := id ∈ ids || "*" ∈ ids

/-- Whether a file pattern takes a path: whole, at its end, or as a glob. The empty path is no
file. -/
def takesFile (pattern path : String) : Bool :=
  !path.isEmpty && (pattern = path || pattern.toList.isSuffixOf path.toList ||
    globAccepts pattern path)

/-- The functions that a diagnostic runs through. -/
def functionsOf (d : Diagnostic) : List String :=
  if !d.callChain.isEmpty then d.callChain
  else if d.function.isEmpty then [] else [d.function]

/-- Whether a diagnostic is silenced. -/
def silences (s : Suppressions) (d : Diagnostic) : Bool :=
  covers s.everywhere d.errorId ||
    (s.byFile.any fun (pattern, ids) => covers ids d.errorId && takesFile pattern d.point.file) ||
    (s.byFunction.any fun (pattern, ids) =>
      covers ids d.errorId && (functionsOf d).any (globAccepts pattern))

/-- The diagnostics that are not silenced. -/
def keep (s : Suppressions) (ds : List Diagnostic) : List Diagnostic :=
  ds.filter fun d => !s.silences d

end Suppressions
end Relock
