import Relock.Proofs.Order
import Relock.Proofs.Program.Shape
import Relock.Search

/-!
# The control flow between positions

A position is what is left of a block. From it the control flow passes the next operation of the
block, and from the end of a block it goes to the start of a successor. `Program.Flow` is a way
along these steps with the operations it passes, calls among them: what a call does is not followed.

A search ends a path at an operation of a member of the group and at a release; `Halts` names them
both. A way that passes none of them is clear.
-/

namespace Relock

namespace Program

/-- A way of the control flow from one position to another, with the operations it passes. -/
inductive Flow (p : Program) (start : Position) : List OpId → Position → Prop where
  | refl : Flow p start [] start
  | pass {os b o rest} : Flow p start os ⟨b, o :: rest⟩ → Flow p start (os ++ [o]) ⟨b, rest⟩
  | jump {os b succ} : Flow p start os ⟨b, []⟩ → succ ∈ (p.block b).successors →
      Flow p start os (Search.fromStart p succ)

/-- A position in a function: the end of one of its blocks' operations. -/
def Inside (p : Program) (f : FunctionId) (position : Position) : Prop :=
  position.block ∈ (p.function f).blocks ∧ position.rest <:+ (p.block position.block).ops

theorem inside_fromStart {p : Program} {f : FunctionId} {b : BlockId}
    (h : b ∈ (p.function f).blocks) :
    p.Inside f (Search.fromStart p b) :=
  ⟨h, List.suffix_refl _⟩

theorem Inside.tail {p : Program} {f : FunctionId} {b : BlockId} {o : OpId} {rest : List OpId}
    (h : p.Inside f ⟨b, o :: rest⟩) : p.Inside f ⟨b, rest⟩ :=
  ⟨h.1, (List.suffix_cons o rest).trans h.2⟩

/-- The control flow does not leave a function. -/
theorem Flow.inside {p : Program} (shape : p.Shape) {f : FunctionId} {start position : Position}
    {os : List OpId} (flow : p.Flow start os position) (h : p.Inside f start) :
    p.Inside f position := by
  induction flow with
  | refl => exact h
  | pass _ ih => exact ih.tail
  | jump _ succ ih => exact inside_fromStart (shape.successor_mem_blocks ih.1 succ)

theorem Inside.mem_ops {p : Program} {f : FunctionId} {b : BlockId} {o : OpId} {rest : List OpId}
    (h : p.Inside f ⟨b, o :: rest⟩) : o ∈ (p.block b).ops :=
  h.2.subset List.mem_cons_self

theorem Inside.functionOf? {p : Program} (shape : p.Shape) {f : FunctionId} {b : BlockId} {o : OpId}
    {rest : List OpId} (h : p.Inside f ⟨b, o :: rest⟩) : p.functionOf? o = some f :=
  shape.functionOf?_of_mem h.1 h.mem_ops

/-- The control flow passes operations of one function. -/
theorem Flow.functionOf?
    {p : Program} (shape : p.Shape) {f : FunctionId} {start position : Position}
    {os : List OpId} (flow : p.Flow start os position) (h : p.Inside f start) {x : OpId}
    (hx : x ∈ os) :
    p.functionOf? x = some f := by
  induction flow with
  | refl => exact absurd hx List.not_mem_nil
  | pass flow ih =>
    rcases List.mem_append.mp hx with old | new
    · exact ih old
    · rw [List.mem_singleton.mp new]
      exact (flow.inside shape h).functionOf? shape
  | jump _ _ ih => exact ih hx

/-- From a block without successors the control flow goes no further than its end. -/
theorem Flow.straight {p : Program} {b : BlockId} {rest os : List OpId} {position : Position}
    (last : (p.block b).successors = []) (flow : p.Flow ⟨b, rest⟩ os position) :
    position.block = b ∧ rest = os ++ position.rest := by
  induction flow with
  | refl => exact ⟨rfl, rfl⟩
  | pass _ ih => exact ⟨ih.1, by rw [ih.2]; simp⟩
  | @jump _ b' succ _ next ih =>
    have here : b' = b := ih.1
    rw [here, last] at next
    exact absurd next List.not_mem_nil

theorem Inside.mem_opsOf {p : Program} {f : FunctionId} {b : BlockId} {o : OpId} {rest : List OpId}
    (h : p.Inside f ⟨b, o :: rest⟩) : o ∈ p.opsOf f :=
  List.mem_flatMap.mpr ⟨b, h.1, h.mem_ops⟩

end Program

/-! ## Where a search ends its paths -/

/-- A member of a group acquires at an operation. -/
def Acquires (group : List LockSite) (o : OpId) : Prop := ∃ member ∈ group, member.op = o

/-- An operation at which a search ends its path: an acquisition by a member of the group or a
release. -/
def Halts (group : List LockSite) (releases : List OpId) (o : OpId) : Prop :=
  Acquires group o ∨ o ∈ releases

/-- The order in which a group is given does not matter. -/
theorem acquires_queryMembers {group : List LockSite} {o : OpId} :
    Acquires (Program.queryMembers group) o ↔ Acquires group o := by
  unfold Acquires Program.queryMembers
  simp only [mem_sortBy]

theorem halts_queryMembers {group : List LockSite} {releases : List OpId} {o : OpId} :
    Halts (Program.queryMembers group) releases o ↔ Halts group releases o := by
  unfold Halts
  rw [acquires_queryMembers]

theorem acquires_of_find? {group : List LockSite} {o : OpId} {second : LockSite}
    (h : (group.find? fun member => member.op = o) = some second) : second ∈ group ∧
    second.op = o := by
  have key := List.find?_some h
  exact ⟨List.mem_of_find?_eq_some h, of_decide_eq_true key⟩

theorem not_acquires_of_find? {group : List LockSite} {o : OpId}
    (h : (group.find? fun member => member.op = o) = none) : ¬ Acquires group o := by
  rintro ⟨member, hm, rfl⟩
  exact List.find?_eq_none.mp h member hm (decide_eq_true rfl)

namespace Program

/-- A way between two positions on which the lock is neither taken again nor released. -/
def Clear (p : Program) (group : List LockSite) (releases : List OpId)
    (start position : Position) : Prop :=
  ∃ os, p.Flow start os position ∧ ∀ o ∈ os, ¬ Halts group releases o

theorem Clear.pass {p : Program} {group : List LockSite} {releases : List OpId} {start : Position}
    {b : BlockId} {o : OpId} {rest : List OpId}
    (clear : p.Clear group releases start ⟨b, o :: rest⟩) (h : ¬ Halts group releases o) :
    p.Clear group releases start ⟨b, rest⟩ := by
  obtain ⟨os, flow, free⟩ := clear
  refine ⟨os ++ [o], flow.pass, fun x hx => ?_⟩
  rcases List.mem_append.mp hx with old | new
  · exact free x old
  · rw [List.mem_singleton.mp new]
    exact h

theorem Clear.jump {p : Program} {group : List LockSite} {releases : List OpId} {start : Position}
    {b succ : BlockId} (clear : p.Clear group releases start ⟨b, []⟩)
    (h : succ ∈ (p.block b).successors) :
    p.Clear group releases start (Search.fromStart p succ) := by
  obtain ⟨os, flow, free⟩ := clear
  exact ⟨os, flow.jump h, free⟩

theorem Clear.inside {p : Program} (shape : p.Shape) {group : List LockSite} {releases : List OpId}
    {f : FunctionId} {start position : Position} (clear : p.Clear group releases start position)
    (h : p.Inside f start) : p.Inside f position := by
  obtain ⟨os, flow, _⟩ := clear
  exact flow.inside shape h

/-- A clear way up to an operation. -/
def Leg (p : Program) (group : List LockSite) (releases : List OpId) (start : Position)
    (o : OpId) : Prop :=
  ∃ b rest, p.Clear group releases start ⟨b, o :: rest⟩

theorem leg_queryMembers {p : Program} {group : List LockSite} {releases : List OpId}
    {start : Position} {o : OpId} : p.Leg (queryMembers group) releases start o ↔
      p.Leg group releases start o := by
  unfold Leg Clear
  simp only [halts_queryMembers]

theorem Leg.functionOf?
    {p : Program} (shape : p.Shape) {group : List LockSite} {releases : List OpId}
    {f : FunctionId} {start : Position} {o : OpId} (leg : p.Leg group releases start o)
    (h : p.Inside f start) : p.functionOf? o = some f := by
  obtain ⟨b, rest, clear⟩ := leg
  exact (clear.inside shape h).functionOf? shape

/-! ## How a query begins -/

/-- The operations of a block stand around any one of them; a query walks on after its first
occurrence. -/
theorem split_at_first {o : OpId} {ops : List OpId} (h : o ∈ ops) :
    ∃ before, ops = before ++ o :: (ops.dropWhile (· ≠ o)).drop 1 := by
  induction ops with
  | nil => exact absurd h List.not_mem_nil
  | cons first ops ih =>
    by_cases same : first = o
    · exact ⟨[], by simp [same]⟩
    · obtain ⟨before, split⟩ := ih ((List.mem_cons.mp h).resolve_left (Ne.symm same))
      refine ⟨first :: before, ?_⟩
      rw [List.dropWhile_cons_of_pos (by simpa using same), List.cons_append, ← split]

/-- What stands before the first occurrence of an operation stands before each of them. -/
theorem mem_before_of_split {o x : OpId} {ops before rest : List OpId}
    (split : ops = before ++ o :: rest) (h : x ∈ ops.takeWhile (· ≠ o)) : x ∈ before := by
  rw [split, List.takeWhile_append] at h
  split at h
  next => simpa using h
  next => exact (List.takeWhile_prefix _).subset h

/-- Nothing else of a block follows one of its operations. -/
theorem rest_of_split {o : OpId} {ops before rest : List OpId} (nodup : ops.Nodup)
    (split : ops = before ++ o :: rest) : (ops.dropWhile (· ≠ o)).drop 1 = rest := by
  have absent : ∀ x ∈ before, x ≠ o := by
    intro x hx same
    rw [split, List.nodup_append] at nodup
    exact nodup.2.2 x hx o List.mem_cons_self same
  rw [split, List.dropWhile_append_of_pos (by simpa using absent),
    List.dropWhile_cons_of_neg (by simp)]
  rfl

/-- The query that a site in a block makes. -/
def queryAt (p : Program) (site : LockSite) (group : List LockSite) (releases : List OpId)
    (b : BlockId) : Query :=
  { site := site, root := (p.block b).function, members := queryMembers group,
    releases := releases }

/-- A query about a site that stands in a block runs its search. -/
theorem query_of_block {p : Program} {config : Config} {site : LockSite} {group : List LockSite}
    {releases : List OpId} {b : BlockId} (attached : (p.op site.op).block = some b)
    (filled : group ≠ []) :
    p.query config site group releases =
      let s := Search.run p config (p.queryAt site group releases b) p.moveBound
        (p.startSearch site (p.block b).function b)
      .ok { reports := s.reports, truncated := s.truncated, steps := s.steps } := by
  have full : group.isEmpty = false := by simpa using filled
  simp only [query, full, Bool.false_eq_true, if_false, attached, queryAt]

/-- A query fails exactly if there is something to search for and its site stands in no block. -/
theorem query_eq_error_iff {p : Program} {config : Config} {site : LockSite} {group : List LockSite}
    {releases : List OpId} {fault : QueryFault} :
    p.query config site group releases = .error fault ↔
      group ≠ [] ∧ (p.op site.op).block = none ∧ fault = .detached site.op := by
  by_cases empty : group = []
  · refine iff_of_false (fun h => ?_) fun h => h.1 empty
    rw [empty] at h
    cases h
  · cases place : (p.op site.op).block with
    | some b =>
      refine iff_of_false (fun h => ?_) fun h => Option.some_ne_none b h.2.1
      rw [query_of_block place empty] at h
      cases h
    | none =>
      have full : group.isEmpty = false := by simpa using empty
      simp only [query, full, Bool.false_eq_true, if_false, place, Except.error.injEq, ne_eq, empty,
        not_false_iff, true_and]
      exact eq_comm

/-- A query about a site that stands in a block gives a result. -/
theorem query_answers {p : Program} (config : Config) {site : LockSite} {b : BlockId}
    (attached : (p.op site.op).block = some b) (group : List LockSite) (releases : List OpId) :
    ∃ result, p.query config site group releases = .ok result := by
  cases answered : p.query config site group releases with
  | ok result => exact ⟨result, rfl⟩
  | error fault =>
    exact absurd ((query_eq_error_iff.mp answered).2.1) (attached ▸ Option.some_ne_none b)

theorem block_detach (p : Program) (o : OpId) : ((p.detach o).op o).block = none := by
  unfold detach modifyOp op op?
  rw [node_modify p _ rfl, if_pos rfl]
  cases p.node o <;> rfl

/-- A site that is taken out of its block cannot be asked about. -/
theorem query_detach (p : Program) (config : Config) (site : LockSite) {group : List LockSite}
    (filled : group ≠ []) (releases : List OpId) :
    (p.detach site.op).query config site group releases = .error (.detached site.op) :=
  query_eq_error_iff.mpr ⟨filled, p.block_detach site.op, rfl⟩

end Program
end Relock
