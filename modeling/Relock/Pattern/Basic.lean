import Relock.Glob

/-!
# Pattern tables

Which calls acquire a lock and which calls are lock-related library calls is decided by name,
through a table. A lock pattern also says which argument holds the lock and where the guard is
delivered: as the call's result, or through one of its arguments. Patterns are tried in order and
the first that accepts a name wins. Excluded pieces of text veto lock patterns, for the whole table
or for one pattern; they never veto library calls.
-/

namespace Relock

/-- How an acquisition holds its lock. -/
inductive ShareMode where
  | exclusive | shared
  deriving DecidableEq, Repr, Inhabited

def ShareMode.name : ShareMode → String
  | exclusive => "exclusive"
  | shared => "shared"

def ShareMode.ofName? (word : String) : Option ShareMode :=
  [exclusive, shared].find? fun m => m.name = word

/-- How a matcher compares its text with a name. -/
inductive MatchKind where
  | starts | contains | equals | glob
  deriving DecidableEq, Repr, Inhabited

def MatchKind.name : MatchKind → String
  | starts => "prefix"
  | contains => "contains"
  | equals => "exact"
  | glob => "glob"

def MatchKind.ofName? (word : String) : Option MatchKind :=
  [starts, contains, equals, glob].find? fun k => k.name = word

/-- What a lock-related library call does with a guard. -/
inductive ApiKind where
  /-- takes the guard out of a result -/
  | unwrap
  /-- hands a result on as another result -/
  | passThrough
  /-- drops at the end of a scope -/
  | autoDrop
  /-- drops where the program says so -/
  | manualDrop
  /-- borrows what the guard protects -/
  | deref
  deriving DecidableEq, Repr, Inhabited

def ApiKind.name : ApiKind → String
  | unwrap => "unwrap"
  | passThrough => "result-passthrough"
  | autoDrop => "auto-drop"
  | manualDrop => "manual-drop"
  | deref => "deref"

def ApiKind.ofName? (word : String) : Option ApiKind :=
  [unwrap, passThrough, autoDrop, manualDrop, deref].find? fun k => k.name = word

/-- Whether one text occurs in another. -/
def occursIn (piece text : String) : Bool :=
  (suffixes text.toList).any fun rest => piece.toList.isPrefixOf rest

/-- One way to recognise a name. -/
structure NameMatcher where
  kind : MatchKind
  text : String
  deriving DecidableEq, Repr, Inhabited

def NameMatcher.accepts (m : NameMatcher) (name : String) : Bool :=
  match m.kind with
  | .starts => m.text.toList.isPrefixOf name.toList
  | .contains => occursIn m.text name
  | .equals => name = m.text
  | .glob => globAccepts m.text name

/-- A call that acquires a lock. The guard is the argument `guardArg`, or the result if there is
none. A `wrapped` guard has to be unwrapped first. A call with fewer than `minArgs` arguments is
malformed. -/
structure LockPattern where
  name : String
  matchers : List NameMatcher
  resourceArg : Nat := 0
  guardArg : Option Nat := none
  mode : ShareMode := .exclusive
  wrapped : Bool := false
  minArgs : Nat := 1
  exclude : List String := []
  deriving DecidableEq, Repr, Inhabited

def LockPattern.accepts (pattern : LockPattern) (callee : String) : Bool :=
  !pattern.exclude.any (occursIn · callee) && pattern.matchers.any (·.accepts callee)

/-- The least number of arguments that has the lock and the guard among them. -/
def LockPattern.needed (pattern : LockPattern) : Nat :=
  match pattern.guardArg with
  | none => pattern.resourceArg + 1
  | some guard => max pattern.resourceArg guard + 1

/-- A lock-related library call. -/
structure ApiPattern where
  kind : ApiKind
  matchers : List NameMatcher
  deriving DecidableEq, Repr, Inhabited

def ApiPattern.accepts (pattern : ApiPattern) (callee : String) : Bool :=
  pattern.matchers.any (·.accepts callee)

/-- A table of patterns in order of preference. -/
structure PatternTable where
  locks : List LockPattern := []
  apis : List ApiPattern := []
  exclude : List String := []
  deriving DecidableEq, Repr, Inhabited

namespace PatternTable

/-- The lock pattern of a callee. -/
def lock? (table : PatternTable) (callee : String) : Option LockPattern :=
  if table.exclude.any (occursIn · callee) then none
  else table.locks.find? (·.accepts callee)

/-- The kind of library call a callee is. -/
def api? (table : PatternTable) (callee : String) : Option ApiKind :=
  (table.apis.find? (·.accepts callee)).map (·.kind)

/-- Lock acquisitions and lock-related calls are library code. -/
def isLibrary (table : PatternTable) (callee : String) : Bool :=
  (table.lock? callee).isSome || (table.api? callee).isSome

/-- A table with another's patterns in front of its own. -/
def extended (table other : PatternTable) : PatternTable :=
  { locks := other.locks ++ table.locks, apis := other.apis ++ table.apis,
    exclude := table.exclude ++ other.exclude }

def size (table : PatternTable) : Nat := table.locks.length + table.apis.length

def text (table : PatternTable) : String :=
  s!"PatternTable(locks={table.locks.length}, apis={table.apis.length})"

end PatternTable
end Relock
