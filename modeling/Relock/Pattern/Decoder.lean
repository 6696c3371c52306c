import Relock.Pattern.Builtin
import Relock.Sexp.Access
import Relock.Sexp.Reader

/-!
# Loading pattern tables

A pattern table is written as one `(patterns ...)` form. `(extends default)` puts its patterns in
front of the built-in ones; otherwise they stand alone. A lock pattern has at least one matcher, and
its least number of arguments is raised so that a call with that many has both the lock and the
guard. The first fault in reading order is the answer. Forms are taken apart by index, behind checks
of their lengths.
-/

namespace Relock

namespace Pattern

/-- What is wrong with a table. -/
inductive Fault where
  /-- The text is not one form. -/
  | unreadable (reason : String)
  /-- The file of the table cannot be read. -/
  | noText (reason : String)
  | notSymbol (got : Sexp)
  | notString (got : Sexp)
  | notInteger (got : Sexp)
  | negative (n : Int)
  | notForm (got : Sexp)
  | malformedMatch (got : Sexp)
  | unknownMatch (got : Sexp)
  | notPatterns
  | unknownBase
  | unknownForm (tag : String)
  | unnamedLock
  | unknownMode (lock : String) (got : Sexp)
  | notFlag (word : String)
  | malformedLock (lock : String) (got : Sexp)
  | unmatchedLock (lock : String)
  | malformedApi
  | unknownApi (got : Sexp)
  | malformedClause (api : ApiKind) (got : Sexp)
  /-- An access to the parts of a form went wrong. -/
  | crashed (crash : Sexp.Crash)

/-- Whether the table is refused. In the other fault the reader goes wrong. -/
def Fault.isTyped : Fault → Bool
  | crashed _ => false
  | _ => true

/-- The wording of each fault. -/
def Fault.message : Fault → String
  | unreadable reason => "S-expression syntax error: " ++ reason
  | noText reason => "cannot read pattern file: " ++ reason
  | notSymbol got => "expected symbol, got " ++ got.render
  | notString got => "expected string, got " ++ got.render
  | notInteger got => "expected integer, got " ++ got.render
  | negative n => s!"argument index must be non-negative, got {n}"
  | notForm got => "expected (tag ...) form, got " ++ got.render
  | malformedMatch got => "(match KIND \"text\") expected, got " ++ got.render
  | unknownMatch got => "unknown match kind " ++ got.render
  | notPatterns => "top-level form must be (patterns ...)"
  | unknownBase => "only (extends default) is supported"
  | unknownForm tag => s!"unknown form ({tag} ...)"
  | unnamedLock => "(lock NAME ...) needs a name"
  | unknownMode lock got => s!"lock {lock}: unknown mode " ++ got.render
  | notFlag word => "expected t or nil, got " ++ word
  | malformedLock lock got => s!"lock {lock}: malformed clause " ++ got.render
  | unmatchedLock lock => s!"lock {lock}: at least one (match ...) is required"
  | malformedApi => "(api KIND (match ...) ...) expected"
  | unknownApi got => "unknown api kind " ++ got.render
  | malformedClause api got => s!"api {api.name}: malformed clause " ++ got.render
  | crashed crash => crash.message

/-- A fault in a table, with the name of the table's source. -/
structure Error where
  source : String
  fault : Fault

def Error.message (e : Error) : String := e.source ++ ": " ++ e.fault.message

/-- An access that goes wrong ends the reading. -/
instance : MonadLift (Except Sexp.Crash) (Except Fault) where
  monadLift x := x.mapError .crashed

/-! ## Words -/

def symbolName : Sexp → Except Fault String
  | .symbol name => .ok name
  | got => .error (.notSymbol got)

def textOf (form : Sexp) : Except Fault String :=
  match form.name? with
  | some text => .ok text
  | none => .error (.notString form)

/-- An argument's index, or a number of arguments. -/
def indexOf : Sexp → Except Fault Nat
  | .int n => if n < 0 then .error (.negative n) else .ok n.toNat
  | got => .error (.notInteger got)

/-- The tag of a form. -/
def tagOf (form : Sexp) : Except Fault String := do
  if !form.hasParts then throw (.notForm form)
  symbolName (← form.part 0)

def flagOf (form : Sexp) : Except Fault Bool := do
  let word ← symbolName form
  if word ∈ ["t", "true", "yes"] then return true
  else if word ∈ ["nil", "false", "no"] then return false
  else throw (.notFlag word)

/-! ## Patterns -/

/-- A `match` clause. -/
def loadMatcher (clause : Sexp) : Except Fault NameMatcher := do
  if (← clause.size) ≠ 3 then throw (.malformedMatch clause)
  let kind ← clause.part 1
  match MatchKind.ofName? (← symbolName kind) with
  | some k => return ⟨k, ← textOf (← clause.part 2)⟩
  | none => throw (.unknownMatch kind)

/-- One clause of a lock pattern, added to what is read so far. A later clause overrules an earlier
one, except that matchers and excluded texts add up. -/
def loadLockClause (read : LockPattern) (clause : Sexp) : Except Fault LockPattern := do
  let malformed : Except Fault LockPattern := .error (.malformedLock read.name clause)
  match ← tagOf clause, ← clause.size with
  | "match", _ => return { read with matchers := read.matchers ++ [← loadMatcher clause] }
  | "resource", 2 => return { read with resourceArg := ← indexOf (← clause.part 1) }
  | "guard", 2 =>
    if (← symbolName (← clause.part 1)) = "result" then return { read with guardArg := none }
    else malformed
  | "guard", 3 =>
    if (← symbolName (← clause.part 1)) = "arg" then
      return { read with guardArg := some (← indexOf (← clause.part 2)) }
    else malformed
  | "mode", 2 =>
    let mode ← clause.part 1
    match ShareMode.ofName? (← symbolName mode) with
    | some m => return { read with mode := m }
    | none => throw (.unknownMode read.name mode)
  | "wrapped", 2 => return { read with wrapped := ← flagOf (← clause.part 1) }
  | "min-args", 2 => return { read with minArgs := ← indexOf (← clause.part 1) }
  | "exclude", _ =>
    let texts ← (← clause.partsFrom 1).mapM textOf
    return { read with exclude := read.exclude ++ texts }
  | _, _ => malformed

/-- A lock pattern. -/
def loadLock (form : Sexp) : Except Fault LockPattern := do
  if (← form.size) < 2 then throw .unnamedLock
  let name ← textOf (← form.part 1)
  let pattern ← (← form.partsFrom 2).foldlM loadLockClause { name := name, matchers := [] }
  if pattern.matchers.isEmpty then throw (.unmatchedLock name)
  return { pattern with minArgs := max pattern.minArgs pattern.needed }

/-- One clause of a library call. -/
def loadApiClause (kind : ApiKind) (clause : Sexp) : Except Fault NameMatcher := do
  if (← tagOf clause) ≠ "match" then throw (.malformedClause kind clause)
  loadMatcher clause

/-- A library call. -/
def loadApi (form : Sexp) : Except Fault ApiPattern := do
  if (← form.size) < 3 then throw .malformedApi
  let kind ← form.part 1
  match ApiKind.ofName? (← symbolName kind) with
  | some k => return ⟨k, ← (← form.partsFrom 2).mapM (loadApiClause k)⟩
  | none => throw (.unknownApi kind)

/-! ## Tables -/

/-- Whether an `extends` form names the built-in table. -/
def isDefault (item : Sexp) : Except Fault Bool := do
  if (← item.size) = 2 then return (← symbolName (← item.part 1)) = "default" else return false

/-- One item of a table, added to what is read so far; the flag says whether the built-in table is
extended. -/
def loadItem (read : PatternTable × Bool) (item : Sexp) : Except Fault (PatternTable × Bool) := do
  let (table, extends?) := read
  match ← tagOf item with
  | "extends" => if ← isDefault item then return (table, true) else throw .unknownBase
  | "exclude" =>
    let texts ← (← item.partsFrom 1).mapM textOf
    return ({ table with exclude := table.exclude ++ texts }, extends?)
  | "lock" => return ({ table with locks := table.locks ++ [← loadLock item] }, extends?)
  | "api" => return ({ table with apis := table.apis ++ [← loadApi item] }, extends?)
  | tag => throw (.unknownForm tag)

/-- Reads a form as a pattern table. -/
def ofSexp (form : Sexp) : Except Fault PatternTable := do
  if (← tagOf form) ≠ "patterns" then throw .notPatterns
  let (table, extends?) ← (← form.partsFrom 1).foldlM loadItem ({}, false)
  return if extends? then PatternTable.builtin.extended table else table

end Pattern

/-- Reads a pattern table with a reader of forms; `source` is its name in messages. -/
def PatternTable.parseWith (read : Sexp.Reader) (source text : String) :
    Except Pattern.Error PatternTable :=
  let outcome : Except Pattern.Fault PatternTable := match read text with
    | .error reason => .error (.unreadable reason)
    | .ok form => Pattern.ofSexp form
  outcome.mapError (⟨source, ·⟩)

/-- Reads a pattern table. -/
def PatternTable.parse (source text : String) : Except Pattern.Error PatternTable :=
  PatternTable.parseWith Sexp.reader source text

end Relock
