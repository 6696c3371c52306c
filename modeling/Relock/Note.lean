import Relock.Program.Basic

/-!
# Notes

Conditions that an analysis meets and goes on from: they stand beside the results and never replace
them.
-/

namespace Relock

/-- What kind of condition was met. -/
inductive NoteKind where
  /-- A lock call without the arguments its pattern needs. -/
  | unparseable
  /-- A lock object without a static type. -/
  | missingType
  /-- A query that used up its steps. -/
  | truncated
  /-- A checker that failed. -/
  | internalError
  deriving DecidableEq, Repr, Inhabited

def NoteKind.code : NoteKind → String
  | unparseable => "unparseableLockSite"
  | missingType => "missingTypeInfo"
  | truncated => "analysisTruncated"
  | internalError => "checkerInternalError"

/-- A condition, with its place if it has one. -/
structure Note where
  kind : NoteKind
  message : String
  location : Option Location := none
  function : String := ""
  deriving DecidableEq, Repr, Inhabited

/-- The note as log lines show it. -/
def Note.text (note : Note) : String :=
  let place := match note.location with
    | some loc => " [" ++ loc.text ++ "]"
    | none => ""
  note.kind.code ++ place ++ ": " ++ note.message

/-- Why a checker failed. -/
inductive Failure where
  /-- An operation lacks an operand that its kind needs. -/
  | missingOperand
  /-- The alias oracle or a checker of its own accord gave up. -/
  | raised (reason : String)
  deriving DecidableEq, Repr, Inhabited

def Failure.message : Failure → String
  | missingOperand => "list index out of range"
  | raised reason => reason

end Relock
