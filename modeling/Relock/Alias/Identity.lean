import Relock.Alias.Chain

/-!
# Lock identities

Which lock a pointer denotes, for locks met in different functions: a field of a structure type is
known by the type and the path to it, whatever object it was reached from; any other lock is known
by its value alone.
-/

namespace Relock

/-- What tells one lock from another across functions. -/
inductive Identity where
  | direct (value : ValueId)
  | field (base : ValueId) (type : Ty) (path : List (Option Int))
  deriving DecidableEq, Repr, Inhabited

namespace Identity

/-- Equal identities: the same value, or the same path in the same structure type. -/
def same : Identity → Identity → Bool
  | direct a, direct b => a = b
  | field _ s i, field _ t j => s = t && i = j
  | _, _ => false

/-- The value that the lock was reached from. -/
def base : Identity → ValueId
  | direct v => v
  | field v _ _ => v

end Identity

namespace Program

/-- The structure type that a pointer points to, seen through casts. -/
def structPointee? (p : Program) (v : ValueId) : Option Ty :=
  match (p.value (p.stripCasts v)).type with
  | .ptr (.struct name) => some (.struct name)
  | _ => none

/-- The identity of a lock object. The address of a field of a structure, and a cast of a pointer to
a structure, are fields; the latter with an empty path. -/
def identity (p : Program) (v : ValueId) : Identity :=
  match p.definingOp? v with
  | none => .direct v
  | some o =>
    let op := p.op o
    match op.operands with
    | [] => .direct v
    | base :: _ =>
      match op.kind, p.structPointee? base with
      | .gep, some type => .field (p.stripCasts base) type op.indices
      | .cast, some type => .field (p.stripCasts base) type []
      | _, _ => .direct v

/-- An identity as reports show it; a computed index shows as a star. -/
def identityText (p : Program) : Identity → String
  | .direct v => "direct %" ++ (p.value v).name
  | .field _ type path =>
    let steps := path.map fun
      | some i => "." ++ toString i
      | none => ".*"
    "field " ++ type.text ++ String.join steps

end Program
end Relock
