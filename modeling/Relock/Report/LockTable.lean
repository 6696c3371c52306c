import Relock.Detection

/-!
# The table of lock sites

One row for each lock site of a run, as a record or as a line of text.
-/

namespace Relock

/-- A row of the table. -/
structure LockRow where
  function : String
  callee : String
  pattern : String
  mode : ShareMode
  wrapped : Bool
  synthetic : Bool
  point : SourcePoint
  /-- The number of operations that release the lock. -/
  releases : Nat
  /-- The number of sites that may acquire the same lock. -/
  aliases : Nat
  deriving Inhabited

namespace LockRow

def record (row : LockRow) : Json :=
  .object [("function", .string row.function), ("callee", .string row.callee),
    ("pattern", .string row.pattern), ("mode", .string row.mode.name),
    ("wrapped", .bool row.wrapped), ("synthetic", .bool row.synthetic),
    ("file", .string row.point.file), ("line", .int row.point.line), ("kill", .int row.releases),
    ("aliases", .int row.aliases)]

def line (row : LockRow) : String :=
  let flags := [row.mode.name] ++ (if row.wrapped then ["wrapped"] else []) ++
    if row.synthetic then ["synthetic"] else []
  s!"{row.point.text}: {row.function}: {row.callee} [" ++ ", ".intercalate flags ++
    s!"] kill={row.releases} aliases={row.aliases}"

end LockRow

/-- The rows of a run, in key order. -/
def Program.lockRows (p : Program) (d : Detection) : List LockRow :=
  d.holdings.map fun h =>
    { function := p.siteFunction h.site, callee := (p.op h.site.op).callee.name,
      pattern := h.site.pattern
      mode := h.site.mode, wrapped := h.site.wrapped, synthetic := h.site.isSynthetic
      point := p.pointOf h.site.op, releases := h.lifetime.releaseSet.length
      aliases := match d.phases.groups with
        | some groups => (groups.group h.site).length
        | none => 0 }

/-- The table as text, with the number of rows below it. -/
def lockTableText (rows : List LockRow) : String :=
  String.join (rows.map fun row => row.line ++ "\n") ++ s!"{rows.length} lock site(s)\n"

/-- The table as records, one to a line. -/
def lockTableRecords (rows : List LockRow) : String :=
  String.join (rows.map fun row => row.record.render ++ "\n")

end Relock
