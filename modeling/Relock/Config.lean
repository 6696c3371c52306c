import Relock.Pattern.Builtin

/-!
# Settings of an analysis

A query visits at most `maxSteps` operations, which is positive, and a returned guard is followed
through at most `maxWrapperDepth` callers. Settings are made from the defaults, or from earlier
settings, by overriding some of them; a setting out of range refuses the whole.
-/

namespace Relock

/-- The settings of one run. -/
structure Config where
  maxSteps : Nat := 200000
  maxWrapperDepth : Nat := 8
  /-- Follow returned guards into the callers. -/
  propagateWrappers : Bool := true
  /-- Leave out acquisitions in code that was not compiled in a directory. -/
  localOnly : Bool := false
  /-- Let queries enter functions that the pattern table knows. -/
  descendIntoLibrary : Bool := false
  patterns : PatternTable := PatternTable.builtin
  deriving Inhabited

namespace Config

/-- A setting out of range. -/
inductive Fault where
  | steps
  | depth
  deriving DecidableEq, Repr

def Fault.message : Fault → String
  | steps => "max_steps_per_query must be positive"
  | depth => "max_wrapper_depth must be non-negative"

/-- Settings to change; the others stay. -/
structure Overrides where
  maxSteps : Option Int := none
  maxWrapperDepth : Option Int := none
  propagateWrappers : Option Bool := none
  localOnly : Option Bool := none
  descendIntoLibrary : Option Bool := none

/-- Settings with some changed. The number of steps is looked at first. -/
def override (config : Config) (changes : Overrides) : Except Fault Config :=
  let steps := changes.maxSteps.getD config.maxSteps
  let depth := changes.maxWrapperDepth.getD config.maxWrapperDepth
  if steps ≤ 0 then .error .steps
  else if depth < 0 then .error .depth
  else .ok { config with
    maxSteps := steps.toNat
    maxWrapperDepth := depth.toNat
    propagateWrappers := changes.propagateWrappers.getD config.propagateWrappers
    localOnly := changes.localOnly.getD config.localOnly
    descendIntoLibrary := changes.descendIntoLibrary.getD config.descendIntoLibrary }

end Config
end Relock
