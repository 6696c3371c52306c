import Relock.CallGraph.Basic
import Relock.Lifetime.Walk

/-!
# Guards returned to callers

A function that returns a guard it acquired acquires the lock for its caller. Each call of such a
function is a synthetic lock site, and if its guard is returned again, so are the calls of the
function it stands in.

Sites wait in a queue, first in first out, each with the number of calls that led to it. The first
one is taken off; if its guard is returned and that number is below the depth of the settings, the
calls of its function are met in order, and each synthetic site whose key is new goes to the end of
the queue.
-/

namespace Relock

/-- A lock site with the lifetime of its guard. -/
structure Holding where
  site : LockSite
  lifetime : Lifetime
  deriving Inhabited

/-- Guards on their way to callers: the sites that wait with their numbers of calls, the keys of the
synthetic sites met so far, and these sites in order. -/
structure Propagation where
  queue : List (Holding × Nat)
  seen : List (List OpId) := []
  found : List Holding := []

namespace Program

/-- The synthetic site of a call with result `guard`, for a site whose guard is returned in
`walk`. -/
def wrapperSite (site : LockSite) (walk : WalkKind) (call : OpId) (guard : ValueId) : LockSite :=
  { site with op := call, via := site.key, guard := guard, wrapped := walk = .result }

/-- The calls of the function that a site stands in. -/
def wrapperCalls (p : Program) (g : CallGraph) (site : LockSite) : List OpId :=
  match p.functionOf? site.op with
  | some f => g.callSitesOf f
  | none => []

/-- A site with its lifetime. -/
def holding (p : Program) (config : Config) (site : LockSite) : Holding :=
  { site := site, lifetime := p.lifetime config.patterns site }

/-- The synthetic site that a call makes of a site. It has to keep its result and to be in scope. -/
def wrapperAt? (p : Program) (config : Config) (site : LockSite) (walk : WalkKind) (call : OpId) :
    Option LockSite :=
  match (p.op call).result with
  | none => none
  | some guard => if p.isInScope config call then some (wrapperSite site walk call guard) else none

/-- Meets a call of the function of a site. -/
def meetCall (p : Program) (config : Config) (site : LockSite) (walk : WalkKind) (depth : Nat)
    (state : Propagation) (call : OpId) : Propagation :=
  match p.wrapperAt? config site walk call with
  | none => state
  | some made =>
    if made.key ∈ state.seen then state
    else
      { queue := state.queue ++ [(p.holding config made, depth + 1)],
        seen := made.key :: state.seen,
        found := state.found ++ [p.holding config made] }

/-- Hands the guard of a site that was taken off the queue to its callers. -/
def handOn (p : Program) (config : Config) (g : CallGraph) (holding : Holding) (depth : Nat)
    (state : Propagation) : Propagation :=
  match holding.lifetime.returned? with
  | none => state
  | some walk =>
    if config.maxWrapperDepth ≤ depth then state
    else (p.wrapperCalls g holding.site).foldl (p.meetCall config holding.site walk depth) state

end Program

/-! ## Rounds -/

/-- A bound on the rounds that a site takes with all that come of it, if `left` more calls may lead
on and no function is called more than `calls` times. -/
def rounds (calls : Nat) : (left : Nat) → Nat
  | 0 => 1
  | left + 1 => 1 + calls * rounds calls left

theorem rounds_pos (calls left : Nat) : 0 < rounds calls left := by
  cases left with
  | zero => exact Nat.one_pos
  | succ left => exact Nat.lt_of_lt_of_le Nat.one_pos (Nat.le_add_right 1 _)

/-- A bound on the rounds that are left. -/
def Propagation.rounds (calls limit : Nat) (state : Propagation) : Nat :=
  total (state.queue.map fun waiting => Relock.rounds calls (limit - waiting.2))

namespace Program

theorem length_wrapperCalls_le (p : Program) (g : CallGraph) (site : LockSite) :
    (p.wrapperCalls g site).length ≤ g.edges.length := by
  unfold wrapperCalls
  split
  · rw [CallGraph.callSitesOf, List.length_map]
    exact List.length_filter_le _ _
  · exact Nat.zero_le _

/-- A call adds at most the rounds of one site. -/
theorem rounds_meetCall (p : Program) (config : Config) (calls limit : Nat) (site : LockSite)
    (walk : WalkKind) (depth : Nat) (state : Propagation) (call : OpId) :
    (p.meetCall config site walk depth state call).rounds calls limit ≤
      state.rounds calls limit + rounds calls (limit - (depth + 1)) := by
  unfold meetCall
  split
  · exact Nat.le_add_right _ _
  · split
    · exact Nat.le_add_right _ _
    · simp only [Propagation.rounds, List.map_append, total_append, List.map_cons,
        List.map_nil, total]
      omega

theorem rounds_foldl_meetCall (p : Program) (config : Config) (calls limit : Nat) (site : LockSite)
    (walk : WalkKind) (depth : Nat) (state : Propagation) (row : List OpId) :
    (row.foldl (p.meetCall config site walk depth) state).rounds calls limit ≤
      state.rounds calls limit + row.length * rounds calls (limit - (depth + 1)) := by
  induction row generalizing state with
  | nil => exact Nat.le_add_right _ _
  | cons call row ih =>
    have first := p.rounds_meetCall config calls limit site walk depth state call
    have later := ih (p.meetCall config site walk depth state call)
    rw [List.foldl_cons, List.length_cons, Nat.succ_mul]
    omega

/-- A site that is taken off the queue takes a round. -/
theorem rounds_handOn_lt (p : Program) (config : Config) (g : CallGraph) (holding : Holding)
    (depth : Nat) (state : Propagation) :
    (p.handOn config g holding depth state).rounds g.edges.length config.maxWrapperDepth <
      rounds g.edges.length (config.maxWrapperDepth - depth) +
        state.rounds g.edges.length config.maxWrapperDepth := by
  have some := rounds_pos g.edges.length (config.maxWrapperDepth - depth)
  unfold handOn
  split
  · omega
  · split
    · omega
    · rename_i walk _ deep
      have next : config.maxWrapperDepth - depth = config.maxWrapperDepth - (depth + 1) + 1 := by
        omega
      have added := p.rounds_foldl_meetCall config g.edges.length config.maxWrapperDepth
        holding.site walk depth state (p.wrapperCalls g holding.site)
      have few := Nat.mul_le_mul_right
        (rounds g.edges.length (config.maxWrapperDepth - (depth + 1)))
        (p.length_wrapperCalls_le g holding.site)
      rw [next, rounds]
      omega

/-! ## The synthetic sites -/

/-- Hands guards on until no site waits. -/
def propagate (p : Program) (config : Config) (g : CallGraph) : Propagation → List Holding
  | ⟨[], _, found⟩ => found
  | ⟨(holding, depth) :: queue, seen, found⟩ =>
    propagate p config g (p.handOn config g holding depth ⟨queue, seen, found⟩)
termination_by state => state.rounds g.edges.length config.maxWrapperDepth
decreasing_by exact p.rounds_handOn_lt config g holding depth ⟨queue, seen, found⟩

/-- All synthetic sites for some sites. -/
def wrapperSites (p : Program) (config : Config) (g : CallGraph) (holdings : List Holding) :
    List Holding :=
  p.propagate config g { queue := holdings.map (·, 0) }

end Program
end Relock
