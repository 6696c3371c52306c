import Relock.Config
import Relock.Note
import Relock.Order
import Relock.Program.Printer

/-!
# Lock sites

A lock site is a place where a lock is acquired: a call whose callee matches a lock pattern, or the
call of a function that hands on a guard it acquired. The second kind is synthetic; its key is its
call followed by the key of the site it stands for, and its lock, mode and pattern are that site's.
Sites are identified and ordered by their keys.

Main definitions: `classify` decides one operation, `lockSites` all operations of a program.
-/

namespace Relock

/-- An acquisition. `via` is the key of the site that a synthetic site stands for. -/
structure LockSite where
  op : OpId
  via : List OpId := []
  guard : ValueId
  resource : ValueId
  mode : ShareMode
  wrapped : Bool
  pattern : String
  deriving DecidableEq, Repr, Inhabited

namespace LockSite

/-- The calls from this site down to the acquisition itself. -/
def key (site : LockSite) : List OpId := site.op :: site.via

def isSynthetic (site : LockSite) : Bool := !site.via.isEmpty

/-- The call that acquires the lock, at the end of the key. -/
def root (site : LockSite) : OpId := site.via.getLast?.getD site.op

/-- The order of sites. -/
def less (a b : LockSite) : Bool := decide (a.key < b.key)

/-- Whether both are one site. -/
def same (a b : LockSite) : Bool := decide (a.key = b.key)

def isShared (site : LockSite) : Bool := site.mode = .shared

end LockSite

namespace Program

/-- The name of the function that a site stands in. -/
def siteFunction (p : Program) (site : LockSite) : String := (p.functionNameOf site.op).getD ""

/-- A site as messages name it: the acquiring callee, the function called for it, and where. -/
def describe (p : Program) (site : LockSite) : String :=
  let via := if site.isSynthetic then " via " ++ (p.op site.op).callee.name else ""
  s!"{(p.op site.root).callee.name}{via} in {p.siteFunction site}"

/-- A site as log lines show it. -/
def siteText (p : Program) (site : LockSite) : String :=
  let tag := if site.isSynthetic then "synthetic " else ""
  s!"LockSite({tag}{site.pattern} @ {p.siteFunction site}#{site.op}, {site.mode.name})"

/-! ## Recognising acquisitions -/

/-- What an operation is to the search for locks. -/
inductive Classified where
  | other
  | site (site : LockSite)
  | malformed (note : Note)
  deriving Inhabited

/-- The guard that a call delivers under a pattern, or what is wrong with the call. -/
def guardOf (op : Operation) (pattern : LockPattern) : Except String ValueId :=
  match pattern.guardArg with
  | none => match op.result with
    | some v => .ok v
    | none => .error "the guard result is discarded"
  | some index => match op.args[index]? with
    | some v => .ok v
    | none => .error s!"no argument {index} for the guard slot"

/-- The guard and the lock object of a call under a pattern, or what is wrong with the call. -/
def partsOf (op : Operation) (pattern : LockPattern) : Except String (ValueId × ValueId) :=
  if op.args.length < pattern.minArgs then
    .error s!"expected at least {pattern.minArgs} argument(s), got {op.args.length}"
  else match op.args[pattern.resourceArg]? with
    | none => .error s!"no argument {pattern.resourceArg} for the lock object"
    | some resource => do return (← guardOf op pattern, resource)

/-- Decides one operation. Only a call of a known function can acquire a lock. -/
def classify (p : Program) (table : PatternTable) (o : OpId) : Classified :=
  let op := p.op o
  match op.target? with
  | none => .other
  | some _ =>
    match table.lock? op.callee.name with
    | none => .other
    | some pattern =>
      match partsOf op pattern with
      | .ok (guard, resource) =>
        .site { op := o, guard := guard, resource := resource, mode := pattern.mode,
                wrapped := pattern.wrapped, pattern := pattern.name }
      | .error reason =>
        .malformed
          { kind := .unparseable
            message := s!"could not parse lock site {op.callee.name} ({pattern.name}): {reason}"
            location := op.location, function := (p.functionNameOf o).getD "" }

/-- Whether the settings leave an operation in. -/
def isInScope (p : Program) (config : Config) (o : OpId) : Bool :=
  !config.localOnly || match (p.op o).location with
    | some loc => loc.isLocal
    | none => false

/-- What the operations in scope are, in program order. -/
def classified (p : Program) (config : Config) : List Classified :=
  (p.allOps.filter (p.isInScope config)).map (p.classify config.patterns)

/-- The acquisitions of a program, in program order. -/
def lockSites (p : Program) (config : Config) : List LockSite :=
  (p.classified config).filterMap fun
    | .site site => some site
    | _ => none

/-- The notes on lock calls that cannot be understood, in program order. -/
def lockNotes (p : Program) (config : Config) : List Note :=
  (p.classified config).filterMap fun
    | .malformed note => some note
    | _ => none

end Program
end Relock
