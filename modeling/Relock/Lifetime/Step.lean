import Relock.Alias.Chain
import Relock.Pattern.Basic

/-!
# What becomes of a guard at one use

An acquisition yields a guard, or a result that wraps one. Both are followed along their uses by the
same table, read with the kind of the walk: each use either hands the value on to another value,
takes the guard out of its result, or ends the branch in a fate.

| consumer                                    | result walk      | guard walk       |
|---------------------------------------------|------------------|------------------|
| unwrapping call                             | `unwrapped`      | `opaqueCall`     |
| call that passes a result on                | `moved`          | `opaqueCall`     |
| dereferencing call                          | `opaqueCall`     | `dereferenced`   |
| dropping call                               | `autoDropped` or `manualDropped`    ||
| any other call                              | `opaqueCall`                        ||
| store, copy or fill through the value       | `overwritten`                       ||
| store or copy of the value                  | `moved` to the slot's object        ||
| load, cast, address, extract, insert, phi   | `moved` to the result               ||
| return                                      | `returned`                          ||
| anything else                               | `unknown`                           ||
-/

namespace Relock

/-- What is being followed. -/
inductive WalkKind where
  | result | guard
  deriving DecidableEq, Repr, Inhabited

def WalkKind.name : WalkKind → String
  | result => "result"
  | guard => "guard"

/-- What becomes of a followed value at a use. -/
inductive Fate where
  | moved
  | unwrapped
  | dereferenced
  | autoDropped
  | manualDropped
  | opaqueCall
  | returned
  | overwritten
  | unknown
  deriving DecidableEq, Repr, Inhabited

namespace Fate

def name : Fate → String
  | moved => "moved-to-other-operation"
  | unwrapped => "unwrapped"
  | dereferenced => "dereferenced"
  | autoDropped => "auto-dropped"
  | manualDropped => "manual-dropped"
  | opaqueCall => "moved-to-opaque-call"
  | returned => "returned"
  | overwritten => "overwritten"
  | unknown => "unknown"

/-- Every fate. -/
def all : List Fate :=
  [moved, unwrapped, dereferenced, autoDropped, manualDropped, opaqueCall, returned,
    overwritten, unknown]

/-- The fates after which the lock counts as released. -/
def releases : List Fate := [autoDropped, manualDropped, opaqueCall]

end Fate

/-- The outcome of a use. `next` is the value that a `moved` value goes on as, or the guard that an
`unwrapped` result gives up. -/
structure Transition where
  fate : Fate
  next : Option ValueId := none
  deriving DecidableEq, Repr, Inhabited

def Transition.continues (t : Transition) : Bool := t.fate = .moved

namespace Program

/-- The value moves on to another one; without one its fate is unknown. -/
def moveTo : Option ValueId → Transition
  | some v => ⟨.moved, some v⟩
  | none => ⟨.unknown, none⟩

/-- The guard that an unwrapping call gives: its result, or what its first argument points to if the
result is dropped or void. -/
def unwrappedBy (p : Program) (op : Operation) : Option ValueId :=
  let viaSlot := op.operands.head?.map p.underlyingObject
  match op.result with
  | none => viaSlot
  | some v => if (p.value v).type = .void then viaSlot else some v

/-- The outcome at a call. It is the same for every argument. -/
def stepCall (p : Program) (table : PatternTable) (walk : WalkKind) (op : Operation) : Transition :=
  match op.callee.function? with
  | none => ⟨.opaqueCall, none⟩
  | some _ =>
    match table.api? op.callee.name, walk with
    | some .unwrap, .result => match p.unwrappedBy op with
      | some v => ⟨.unwrapped, some v⟩
      | none => ⟨.unknown, none⟩
    | some .passThrough, .result => moveTo op.result
    | some .deref, .guard => ⟨.dereferenced, none⟩
    | some .autoDrop, _ => ⟨.autoDropped, none⟩
    | some .manualDrop, _ => ⟨.manualDropped, none⟩
    | _, _ => ⟨.opaqueCall, none⟩

/-- The outcome of a use. -/
def step (p : Program) (table : PatternTable) (walk : WalkKind) (use : Use) : Transition :=
  let op := p.op use.op
  match op.kind with
  | .call | .invoke => p.stepCall table walk op
  | .memcpy =>
    if use.index = 0 then ⟨.overwritten, none⟩ else moveTo (op.operands[0]?.map p.underlyingObject)
  | .memset => ⟨.overwritten, none⟩
  | .store =>
    if use.index = 1 then ⟨.overwritten, none⟩ else moveTo (op.operands[1]?.map p.underlyingObject)
  | .load | .cast | .gep | .extract | .insert | .phi => moveTo op.result
  | .ret => ⟨.returned, none⟩
  | _ => ⟨.unknown, none⟩

/-- A store without a slot has no outcome at its stored value. -/
def isBrokenStore (p : Program) (use : Use) : Bool :=
  let op := p.op use.op
  op.kind = .store && decide (use.index ≠ 1) && decide (op.operands.length < 2)

end Program
end Relock
