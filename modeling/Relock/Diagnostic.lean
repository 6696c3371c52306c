import Relock.Json
import Relock.Program.Basic

/-!
# Diagnostics

A finding as users see it: where it is, how severe and how certain, the calls that lead to it and
further places that explain it. Diagnostics have a record form for tools and a one-line form in the
style of compilers.
-/

namespace Relock

/-- How severe a finding is. -/
inductive Severity where
  | error | warning | information
  deriving DecidableEq, Repr, Inhabited

def Severity.name : Severity → String
  | error => "error"
  | warning => "warning"
  | information => "information"

def Severity.ofName? (word : String) : Option Severity :=
  [error, warning, information].find? fun s => s.name = word

/-- How certain a finding is: low if one side was inferred through a function that hands on a
guard. -/
inductive Confidence where
  | medium | low
  deriving DecidableEq, Repr, Inhabited

def Confidence.name : Confidence → String
  | medium => "medium"
  | low => "low"

/-- A point in the sources; without a file it is unknown, and column 0 stands for none. -/
structure SourcePoint where
  file : String := ""
  line : Int := 0
  column : Int := 0
  deriving DecidableEq, Repr, Inhabited

namespace SourcePoint

def text (point : SourcePoint) : String :=
  if point.file.isEmpty then "<unknown>"
  else if point.column ≠ 0 then s!"{point.file}:{point.line}:{point.column}"
  else s!"{point.file}:{point.line}"

/-- The point of a location, if there is one. -/
def ofLocation : Option Location → SourcePoint
  | none => {}
  | some loc => { file := loc.file, line := loc.line }

end SourcePoint

/-- A further place that explains a finding. -/
structure Related where
  point : SourcePoint
  message : String
  deriving DecidableEq, Repr, Inhabited

/-- A finding without the details for tools. -/
structure Finding where
  errorId : String
  message : String
  severity : Severity
  point : SourcePoint := {}
  confidence : Confidence := .medium
  cwe : Int := 0
  checker : String := ""
  function : String := ""
  callChain : List String := []
  related : List Related := []
  deriving DecidableEq, Repr, Inhabited

/-- A finding with details for tools. The details do not count when findings are compared. -/
structure Diagnostic extends Finding where
  evidence : List (String × Json) := []
  deriving Inhabited

namespace Diagnostic

def relatedRecord (r : Related) : Json :=
  .object [("file", .string r.point.file), ("linenr", .int r.point.line),
    ("message", .string r.message)]

/-- The record of a diagnostic; fields that say nothing are left out. -/
def record (d : Diagnostic) : Json :=
  -- the parts are typed one by one, as an untyped row of them takes long to elaborate
  .object (([("file", .string d.point.file), ("linenr", .int d.point.line),
    ("column", .int d.point.column),
      ("severity", .string d.severity.name), ("message", .string d.message),
      ("errorId", .string d.errorId),
      ("confidence", .string d.confidence.name)] : List (String × Json)) ++
    (if d.cwe ≠ 0 then [("cwe", .int d.cwe)] else [] : List (String × Json)) ++
    (if d.function.isEmpty then []
      else [("function", .string d.function)] : List (String × Json)) ++
    (if d.callChain.isEmpty then []
      else [("callChain", .array (d.callChain.map .string))] : List (String × Json)) ++
    (if d.related.isEmpty then []
      else [("related", .array (d.related.map relatedRecord))] : List (String × Json)) ++
    (if d.evidence.isEmpty then [] else [("evidence", .object d.evidence)] : List (String × Json)))

/-- The record on one line. -/
def recordLine (d : Diagnostic) : String := d.record.render

/-- The diagnostic as compilers print them. -/
def compilerLine (d : Diagnostic) : String :=
  s!"{d.point.text}: {d.severity.name}: {d.message} [{d.errorId}]"

end Diagnostic
end Relock
