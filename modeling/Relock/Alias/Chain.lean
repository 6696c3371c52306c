import Relock.Program.Basic

/-!
# Where a pointer comes from

Following a pointer's definitions back: through casts to the value that was cast, or through casts,
address computations and loads to the object they start from. At most `chainLimit` definitions are
followed, since forward references let a value depend on itself.
-/

namespace Relock

/-- The most definitions that are followed back. -/
def chainLimit : Nat := 64

namespace Program

/-- The first operand of the operation that defines a value, if its kind is among `kinds`. -/
def sourceBy? (p : Program) (kinds : List OpKind) (v : ValueId) : Option ValueId :=
  match p.definingOp? v with
  | none => none
  | some o => if (p.op o).kind ∈ kinds then (p.op o).operands.head? else none

/-- Follows definitions of some kinds back, for a number of steps. -/
def followBack (p : Program) (kinds : List OpKind) : (steps : Nat) → ValueId → ValueId
  | 0, v => v
  | steps + 1, v => match p.sourceBy? kinds v with
    | none => v
    | some source => followBack p kinds steps source

/-- The value behind a chain of casts. -/
def stripCasts (p : Program) (v : ValueId) : ValueId := p.followBack [.cast] chainLimit v

/-- The object behind a chain of casts, address computations and loads. -/
def underlyingObject (p : Program) (v : ValueId) : ValueId :=
  p.followBack [.cast, .gep, .load] chainLimit v

/-- Whether two values belong to one function; unknown if one of them belongs to none. -/
def sameOwner? (p : Program) (a b : ValueId) : Option Bool :=
  match (p.value a).origin.owner?, (p.value b).origin.owner? with
  | some f, some g => some (f = g)
  | _, _ => none

end Program
end Relock
