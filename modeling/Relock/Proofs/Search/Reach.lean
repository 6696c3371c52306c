import Mathlib.Logic.Relation
import Relock.Proofs.Search.Flow
import Relock.Proofs.Search.Move

/-!
# What a query can come to

A query moves between positions: over an operation that does not end its paths, from the end of a
block to its successors, and from a call into the function it goes to. `Connects` is one such step.
Which operations may be passed over is left open: a query passes over a call unless it finds
something in the function called, and `Barren` is the part of that which the program alone decides.
-/

namespace Relock

open Relation (ReflTransGen)
open Search (MayEnter fromStart)

/-- A call enters a function in the queries of sites in `root`. -/
structure Enters (p : Program) (config : Config) (root : FunctionId) (o : OpId)
    (g : FunctionId) : Prop
    extends MayEnter p config o g where
  other : g ≠ root

/-- A function has a call that enters another. -/
def CallsInto (p : Program) (config : Config) (root f g : FunctionId) : Prop :=
  ∃ o ∈ p.opsOf f, Enters p config root o g

/-- A member of the group acquires in a function or in one that it enters, directly or not. -/
def Detects (p : Program) (config : Config) (root : FunctionId) (group : List LockSite)
    (f : FunctionId) : Prop :=
  ∃ g, ReflTransGen (CallsInto p config root) f g ∧ ∃ o ∈ p.opsOf g, Acquires group o

/-- No member of the group acquires in what an operation enters. -/
def Barren (p : Program) (config : Config) (root : FunctionId) (group : List LockSite)
    (o : OpId) : Prop :=
  ∀ g, Enters p config root o g → ¬ Detects p config root group g

/-- One step between positions. Operations that end paths are not left; the others are passed over
if `passable` allows it. -/
inductive Connects (p : Program) (config : Config) (root : FunctionId) (group : List LockSite)
    (releases : List OpId) (passable : OpId → Prop) : Position → Position → Prop where
  | pass {b o rest} : ¬ Halts group releases o → passable o →
      Connects p config root group releases passable ⟨b, o :: rest⟩ ⟨b, rest⟩
  | jump {b succ} : succ ∈ (p.block b).successors →
      Connects p config root group releases passable ⟨b, []⟩ (fromStart p succ)
  | enter {b o rest g entry} : ¬ Halts group releases o → Enters p config root o g →
      (p.function g).entryBlock? = some entry →
      Connects p config root group releases passable ⟨b, o :: rest⟩ (fromStart p entry)

variable {p : Program} {config : Config} {root : FunctionId} {group : List LockSite}
    {releases : List OpId}

/-- A call goes to one function at most. -/
theorem Enters.unique {o : OpId} {f g : FunctionId} (hf : Enters p config root o f)
    (hg : Enters p config root o g) : f = g :=
  Option.some.inj (hf.target.symm.trans hg.target)

theorem detects_of_acquires {f : FunctionId} {o : OpId} (mem : o ∈ p.opsOf f)
    (acquires : Acquires group o) :
    Detects p config root group f :=
  ⟨f, .refl, o, mem, acquires⟩

/-- What is to be found in a function is to be found in its callers. -/
theorem Detects.of_call {f g : FunctionId} {o : OpId} (mem : o ∈ p.opsOf f)
    (enters : Enters p config root o g) (detects : Detects p config root group g) :
    Detects p config root group f := by
  obtain ⟨h, path, found⟩ := detects
  exact ⟨h, .head ⟨o, mem, enters⟩ path, found⟩

/-! ## The order of a group does not matter -/

theorem detects_queryMembers {f : FunctionId} :
    Detects p config root (Program.queryMembers group) f ↔ Detects p config root group f := by
  unfold Detects
  simp only [acquires_queryMembers]

/-- Steps for a group are steps for its members in order. -/
theorem Connects.queryMembers {passable : OpId → Prop} {here there : Position}
    (step : Connects p config root group releases passable here there) :
    Connects p config root (Program.queryMembers group) releases passable here there := by
  cases step with
  | pass running allowed => exact .pass (mt halts_queryMembers.mp running) allowed
  | jump mem => exact .jump mem
  | enter running enters first => exact .enter (mt halts_queryMembers.mp running) enters first

end Relock
