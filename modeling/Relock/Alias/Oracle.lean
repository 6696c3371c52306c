import Relock.Alias.Chain
import Relock.Keyed
import Relock.Note

/-!
# Must-alias questions

Whether two values of one function surely denote the same storage. The structural answer looks
through casts, follows equal constant field paths, and takes two loads for one if their pointers are
one and the slot is written at most once; everything else is no. `Program.verdict` gives the answer
with its reason.

The structural oracle remembers its answers by unordered pair: a pair asked again, in either order,
gets its first answer. Other oracles are functions of the ordered pair, or always fail.
-/

namespace Relock

/-- The answer to a must-alias question, with the reason for a no. -/
inductive Verdict where
  | same
  | different
  /-- The pointers agree, but this slot is written more than once. -/
  | unstable (slot : ValueId)
  /-- An address computation or load without an operand was met. -/
  | malformed
  deriving DecidableEq, Repr, Inhabited

namespace Program

/-- The number of uses in the program, which bounds the walks over uses. -/
def useCount (p : Program) : Nat :=
  p.nodes.foldl (fun n node => match node with
    | .value v => n + v.uses.length
    | _ => n) 0

/-! ## Writes to a slot -/

/-- Whether a use writes through the value: as the pointer of a store, or as the destination of a
copy or a fill. -/
def isWrite (p : Program) (use : Use) : Bool :=
  match (p.op use.op).kind with
  | .store => use.index = 1
  | .memcpy | .memset => use.index = 0
  | _ => false

/-- The casts of a value. -/
def castsOf (p : Program) (v : ValueId) : List ValueId :=
  (p.value v).uses.filterMap fun use =>
    if (p.op use.op).kind = .cast then (p.op use.op).result else none

/-- The number of writes through a value itself. -/
def writeCount (p : Program) (v : ValueId) : Nat := ((p.value v).uses.filter p.isWrite).length

/-- Counts the writes through the values in `work` and all casts of them, each value once, and stops
as soon as there are two. The casts of a value come before what waits already, the last of them
first. Each round takes one value off the list, and no use adds to it twice, so a use for each round
is fuel enough. -/
def writesFrom (p : Program) : (fuel : Nat) → (work seen : List ValueId) → (writes : Nat) → Nat
  | 0, _, _, writes => writes
  | _ + 1, [], _, writes => writes
  | fuel + 1, v :: work, seen, writes =>
    if 1 < writes then writes
    else if v ∈ seen then writesFrom p fuel work seen writes
    else writesFrom p fuel ((p.castsOf v).reverse ++ work) (v :: seen) (writes + p.writeCount v)

/-- Whether a slot is written more than once, through its pointer or a cast of it. -/
def isUnstable (p : Program) (slot : ValueId) : Bool :=
  decide (1 < p.writesFrom (p.useCount + 2) [slot] [] 0)

/-! ## The structural answer -/

def isConstant (p : Program) (v : ValueId) : Bool :=
  match (p.value v).origin with
  | .constant _ => true
  | _ => false

/-- The structural answer for a pair, with the pairs `seen` on the way to it. A pair that comes back
is different. Each round adds a pair of the program, so their number is fuel enough. -/
def verdictFrom (p : Program) : (fuel : Nat) → (seen : List (ValueId × ValueId)) →
    (a b : ValueId) → Verdict
  | 0, _, _, _ => .different
  | fuel + 1, seen, a, b =>
    let a := p.stripCasts a
    let b := p.stripCasts b
    if a = b then .same
    else if p.isConstant a || p.isConstant b || (a, b) ∈ seen then .different
    else match p.definingOp? a, p.definingOp? b with
      | some da, some db =>
        let da := p.op da
        let db := p.op db
        if da.kind ≠ db.kind then .different
        else match da.kind with
          | .gep =>
            if none ∈ da.indices || da.indices ≠ db.indices then .different
            else match da.operands, db.operands with
              | x :: _, y :: _ => verdictFrom p fuel ((a, b) :: seen) x y
              | _, _ => .malformed
          | .load =>
            match da.operands, db.operands with
            | x :: _, y :: _ =>
              match verdictFrom p fuel ((a, b) :: seen) x y with
              | .same => if p.isUnstable (p.stripCasts x) then .unstable (p.stripCasts x) else .same
              | verdict => verdict
            | _, _ => .malformed
          | _ => .different
      | _, _ => .different

/-- The structural answer for an ordered pair of values. -/
def verdict (p : Program) (a b : ValueId) : Verdict :=
  p.verdictFrom (p.nodes.size * p.nodes.size + 1) [] a b

end Program

/-! ## Oracles -/

/-- Who answers must-alias questions. -/
inductive Oracle where
  | structural
  | function (ask : ValueId → ValueId → Bool)
  | failing (reason : String)

namespace Oracle

/-- What the structural oracle remembers: its answers by unordered pair, and the slots it found
written more than once, in the order found. -/
structure Memo where
  answers : Keyed (ValueId × ValueId) Bool := []
  slots : List ValueId := []
  deriving Inhabited

/-- The unordered pair of two values. -/
def pair (a b : ValueId) : ValueId × ValueId := if a ≤ b then (a, b) else (b, a)

/-- Remembers a verdict. -/
def Memo.record (memo : Memo) (a b : ValueId) (verdict : Verdict) : Memo :=
  let slots := match verdict with
    | .unstable slot => if slot ∈ memo.slots then memo.slots else memo.slots ++ [slot]
    | _ => memo.slots
  { answers := (pair a b, verdict = .same) :: memo.answers, slots := slots }

/-- Asks an oracle about an ordered pair. -/
def ask (p : Program) (oracle : Oracle) (memo : Memo) (a b : ValueId) :
    Except Failure (Bool × Memo) :=
  match oracle with
  | structural =>
    match memo.answers.get? (pair a b) with
    | some answer => .ok (answer, memo)
    | none =>
      match p.verdict a b with
      | .malformed => .error .missingOperand
      | verdict => .ok (verdict = .same, memo.record a b verdict)
  | function answer => .ok (answer a b, memo)
  | failing reason => .error (.raised reason)

end Oracle
end Relock
