import Relock.Pattern.Decoder

/-!
# The grammar of pattern tables

Pattern tables read by the shape of their forms, one equation for each form, with no access that
could go wrong. The loader is shown to read the same; `Pattern.decode` is what the proofs about
tables are about.
-/

namespace Relock.Pattern

/-- The tag of a form and its parts. -/
def tagged : Sexp → Except Fault (String × List Sexp)
  | .list (head :: parts) => do return (← symbolName head, parts)
  | got => .error (.notForm got)

/-- A `match` clause. -/
def matcherOf (clause : Sexp) : List Sexp → Except Fault NameMatcher
  | [kind, text] => do
    match MatchKind.ofName? (← symbolName kind) with
    | some k => return ⟨k, ← textOf text⟩
    | none => throw (.unknownMatch kind)
  | _ => .error (.malformedMatch clause)

/-- One clause of a lock pattern, added to what is read so far. A later clause overrules an earlier
one, except that matchers and excluded texts add up. -/
def lockClause (read : LockPattern) (clause : Sexp) : Except Fault LockPattern := do
  let malformed : Except Fault LockPattern := .error (.malformedLock read.name clause)
  match ← tagged clause with
  | ("match", parts) => return { read with matchers := read.matchers ++ [← matcherOf clause parts] }
  | ("resource", [index]) => return { read with resourceArg := ← indexOf index }
  | ("guard", [place]) =>
    if (← symbolName place) = "result" then return { read with guardArg := none } else malformed
  | ("guard", [place, index]) =>
    if (← symbolName place) = "arg" then return { read with guardArg := some (← indexOf index) }
      else malformed
  | ("mode", [mode]) =>
    match ShareMode.ofName? (← symbolName mode) with
    | some m => return { read with mode := m }
    | none => throw (.unknownMode read.name mode)
  | ("wrapped", [flag]) => return { read with wrapped := ← flagOf flag }
  | ("min-args", [count]) => return { read with minArgs := ← indexOf count }
  | ("exclude", texts) => return { read with exclude := read.exclude ++ (← texts.mapM textOf) }
  | _ => malformed

/-- A lock pattern. -/
def lockOf : List Sexp → Except Fault LockPattern
  | [] => .error .unnamedLock
  | name :: clauses => do
    let name ← textOf name
    let pattern ← clauses.foldlM lockClause { name := name, matchers := [] }
    if pattern.matchers.isEmpty then throw (.unmatchedLock name)
    return { pattern with minArgs := max pattern.minArgs pattern.needed }

/-- One clause of a library call. -/
def apiClause (kind : ApiKind) (clause : Sexp) : Except Fault NameMatcher := do
  match ← tagged clause with
  | ("match", parts) => matcherOf clause parts
  | _ => throw (.malformedClause kind clause)

/-- A library call. -/
def apiOf : List Sexp → Except Fault ApiPattern
  | kind :: clause :: clauses => do
    match ApiKind.ofName? (← symbolName kind) with
    | some k => return ⟨k, ← (clause :: clauses).mapM (apiClause k)⟩
    | none => throw (.unknownApi kind)
  | _ => .error .malformedApi

/-! ## Tables -/

/-- One item of a table, added to what is read so far; the flag says whether the built-in table is
extended. -/
def itemOf (read : PatternTable × Bool) (item : Sexp) : Except Fault (PatternTable × Bool) := do
  let (table, extends?) := read
  match ← tagged item with
  | ("extends", [base]) =>
    if (← symbolName base) = "default" then return (table, true) else throw .unknownBase
  | ("extends", _) => throw .unknownBase
  | ("exclude", texts) =>
    return ({ table with exclude := table.exclude ++ (← texts.mapM textOf) }, extends?)
  | ("lock", parts) => return ({ table with locks := table.locks ++ [← lockOf parts] }, extends?)
  | ("api", parts) => return ({ table with apis := table.apis ++ [← apiOf parts] }, extends?)
  | (tag, _) => throw (.unknownForm tag)

/-- Reads a form as a pattern table. -/
def decode (form : Sexp) : Except Fault PatternTable := do
  match ← tagged form with
  | ("patterns", items) =>
    let (table, extends?) ← items.foldlM itemOf ({}, false)
    return if extends? then PatternTable.builtin.extended table else table
  | _ => throw .notPatterns

end Relock.Pattern
