import Relock.Alias.Oracle
import Relock.Lifetime.Step
import Relock.LockSite

/-!
# Lifetimes of guards

A walk follows values along their uses, first in first out, each value once, and notes the fate of
every use it meets. Uses by the operations in `skip` are not edges. The lifetime of a lock site is
one guard walk, after a result walk if the guard comes wrapped: the guard walk starts from the
values that unwrapping calls gave up, and skips those calls.

The release set of a site holds the operations at which its guard is dropped or handed to a call
that is not understood.
-/

namespace Relock

/-- What a walk has met: the values followed, the fates with their operations, and the values given
up by unwrapping, the latter two in the order met. -/
structure Walk where
  visited : List ValueId := []
  edges : List (Fate × OpId) := []
  handedOver : List ValueId := []
  deriving Inhabited

namespace Program

/-- The uses of a value that are edges of a walk. -/
def edgesOf (p : Program) (skip : List OpId) (v : ValueId) : List Use :=
  (p.value v).uses.filter fun use => use.op ∉ skip

/-- Follows the values in the queue. Each round takes one value, and each use adds at most one, so
the number of uses and of first values is fuel enough. -/
def follow (p : Program) (table : PatternTable) (kind : WalkKind) (skip : List OpId) :
    (fuel : Nat) → (queue : List ValueId) → Walk → Walk
  | 0, _, walk => walk
  | _ + 1, [], walk => walk
  | fuel + 1, v :: queue, walk =>
    if v ∈ walk.visited then follow p table kind skip fuel queue walk
    else
      let steps := (p.edgesOf skip v).map fun use => (use.op, p.step table kind use)
      let next := (steps.filter fun s => s.2.continues).filterMap fun s => s.2.next
      let given := (steps.filter fun s => !s.2.continues).filterMap fun s => s.2.next
      follow p table kind skip fuel (queue ++ next)
        { visited := v :: walk.visited,
          edges := walk.edges ++ steps.map fun s => (s.2.fate, s.1),
          handedOver := walk.handedOver ++ given }

/-- The walk from some values. -/
def walkFrom (p : Program) (table : PatternTable) (kind : WalkKind) (skip : List OpId)
    (seeds : List ValueId) : Walk :=
  p.follow table kind skip (seeds.length + p.useCount + 1) seeds {}

/-- Whether a walk met a store without a slot. -/
def metBrokenStore (p : Program) (skip : List OpId) (walk : Walk) : Bool :=
  walk.visited.any fun v => (p.edgesOf skip v).any p.isBrokenStore

end Program

/-- The operations with a fate, as a set. -/
def Walk.bucket (walk : Walk) (fate : Fate) : List OpId :=
  idSet ((walk.edges.filter fun e => e.1 = fate).map (·.2))

/-- The two walks of a lock site. `unwrapped` holds the values that the guard walk of a wrapped site
starts from. `isBroken` says that a store without a slot was met. -/
structure Lifetime where
  result : Walk := {}
  guard : Walk := {}
  unwrapped : List ValueId := []
  isBroken : Bool := false
  deriving Inhabited

namespace Lifetime

/-- The operations with a fate in either walk. -/
def bucket (lifetime : Lifetime) (fate : Fate) : List OpId :=
  idSet (lifetime.result.bucket fate ++ lifetime.guard.bucket fate)

/-- The operations that release the lock. -/
def releaseSet (lifetime : Lifetime) : List OpId := idSet (Fate.releases.flatMap lifetime.bucket)

/-- The walk in which the guard reaches a return; the result walk counts first. -/
def returned? (lifetime : Lifetime) : Option WalkKind :=
  if !(lifetime.result.bucket .returned).isEmpty then some .result
  else if !(lifetime.guard.bucket .returned).isEmpty then some .guard
  else none

end Lifetime

namespace Program

/-- The lifetime of a lock site. -/
def lifetime (p : Program) (table : PatternTable) (site : LockSite) : Lifetime :=
  if site.wrapped then
    let result := p.walkFrom table .result [site.op] [site.guard]
    let skip := site.op :: result.bucket .unwrapped
    let guard := p.walkFrom table .guard skip result.handedOver
    { result := result, guard := guard, unwrapped := result.handedOver,
      isBroken := p.metBrokenStore [site.op] result || p.metBrokenStore skip guard }
  else
    let guard := p.walkFrom table .guard [site.op] [site.guard]
    { guard := guard, isBroken := p.metBrokenStore [site.op] guard }

end Program
end Relock
