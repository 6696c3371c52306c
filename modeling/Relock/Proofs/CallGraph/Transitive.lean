import Mathlib.Data.List.Perm.Subperm
import Mathlib.Order.Lattice.Nat
import Relock.Proofs.CallGraph.Basic
import Relock.Proofs.Search.Sound

/-!
# Functions called directly or indirectly

The walk from a function lists what it meets: done first, then the queue. `Spread` is what a round
keeps. Its two halves are that the functions done have all their callees among those met, and that
the queue holds functions of two distances at most, the nearer ones first. A function that is met
now was therefore not to be met with fewer calls, and at the end of the queue everything that can be
reached was met.

A query goes from function to function by the same calls. The functions of a report's chain are
therefore among those that the walk from the first of them lists.
-/

namespace Relock

open Relation (ReflTransGen TransGen)

/-! ## Numbers of steps -/

/-- A number of steps leads from one place to another. -/
inductive Steps (r : Nat → Nat → Prop) (u : Nat) : Nat → Nat → Prop where
  | none : Steps r u 0 u
  | one {n v w} : Steps r u n v → r v w → Steps r u (n + 1) w

/-- The least number of steps that leads from one place to another. -/
noncomputable def distance (r : Nat → Nat → Prop) (u w : Nat) : Nat := sInf {n | Steps r u n w}

section Steps

variable {r : Nat → Nat → Prop} {u v w n : Nat}

theorem Steps.distance_le (steps : Steps r u n w) : distance r u w ≤ n := Nat.sInf_le steps

theorem exists_steps (leads : ReflTransGen r u w) : ∃ n, Steps r u n w := by
  induction leads with
  | refl => exact ⟨0, .none⟩
  | tail _ last ih =>
    obtain ⟨n, steps⟩ := ih
    exact ⟨n + 1, steps.one last⟩

theorem steps_distance (leads : ReflTransGen r u w) : Steps r u (distance r u w) w :=
  Nat.sInf_mem (exists_steps leads)

theorem distance_le_succ (leads : ReflTransGen r u v) (step : r v w) :
    distance r u w ≤ distance r u v + 1 :=
  ((steps_distance leads).one step).distance_le

end Steps

namespace CallGraph

variable {g : CallGraph} {start : FunctionId}

/-- A function has a call that goes to another function. -/
def Resolves (g : CallGraph) (u w : FunctionId) : Prop := w ∈ g.calledFunctions u

theorem resolves_iff {u w : FunctionId} : g.Resolves u w ↔ g.Calls u w ∧ w ≠ sink := by
  rw [Resolves, calledFunctions, List.mem_filter, mem_callees, decide_eq_true_eq]

/-! ## What a round keeps -/

/-- The functions that the walk meets new at a function. -/
def fresh (g : CallGraph) (start : FunctionId) (order : List FunctionId) (u : FunctionId) :
    List FunctionId :=
  (g.calledFunctions u).filter fun h => h ≠ start && h ∉ order

/-- Of the functions met, those done come first and then the queue. -/
structure Spread (g : CallGraph) (start : FunctionId)
    (done queue order : List FunctionId) : Prop where
  met : done ++ queue = start :: order
  nodup : (done ++ queue).Nodup
  nodes : done ++ queue ⊆ g.nodes
  reached : ∀ h ∈ done ++ queue, ReflTransGen g.Resolves start h
  closed : ∀ u ∈ done, ∀ w, g.Resolves u w → w ∈ done ++ queue
  nearest : (done ++ queue).Pairwise fun a b =>
    distance g.Resolves start a ≤ distance g.Resolves start b
  narrow : ∀ a ∈ queue, ∀ b ∈ queue, distance g.Resolves start a ≤ distance g.Resolves start b + 1

theorem spread_start (node : start ∈ g.nodes) : Spread g start [] [start] [] where
  met := rfl
  nodup := List.pairwise_singleton _ start
  nodes := List.cons_subset.mpr ⟨node, List.nil_subset _⟩
  reached h mem := List.mem_singleton.mp mem ▸ .refl
  closed := List.forall_mem_nil _
  nearest := List.pairwise_singleton _ _
  narrow a ha b hb := by
    rw [List.mem_singleton.mp ha, List.mem_singleton.mp hb]
    exact Nat.le_succ _

namespace Spread

variable {done queue rest order : List FunctionId} {u w : FunctionId}

theorem mem_fresh (spread : Spread g start done queue order) :
    w ∈ g.fresh start order u ↔ g.Resolves u w ∧ w ∉ done ++ queue := by
  rw [spread.met, fresh, List.mem_filter, List.mem_cons, not_or, Bool.and_eq_true,
    decide_eq_true_eq, decide_eq_true_eq]
  rfl

/-- The queue is no nearer than its head. -/
theorem head_le (spread : Spread g start done (u :: rest) order) {v : FunctionId}
    (mem : v ∈ u :: rest) :
    distance g.Resolves start u ≤ distance g.Resolves start v := by
  rcases List.mem_cons.mp mem with rfl | later
  · exact Nat.le_refl _
  · exact (List.pairwise_cons.mp (List.pairwise_append.mp spread.nearest).2.1).1 v later

/-- What is no further away than the head of the queue was met. -/
theorem mem_of_steps (spread : Spread g start done (u :: rest) order) {n : Nat}
    (steps : Steps g.Resolves start n w) (near : n ≤ distance g.Resolves start u) :
    w ∈ done ++ u :: rest := by
  induction steps with
  | none => rw [spread.met]; exact List.mem_cons_self
  | @one n v w steps call ih =>
    rcases List.mem_append.mp (ih (Nat.le_of_succ_le near)) with finished | waiting
    · exact spread.closed v finished w call
    · -- the caller would be nearer than the head of the queue that it waits in
      have further := Nat.le_trans (spread.head_le waiting) steps.distance_le
      omega

/-- What the head of the queue is the first to call is one call further away. -/
theorem distance_fresh (spread : Spread g start done (u :: rest) order)
    (mem : w ∈ g.fresh start order u) :
    distance g.Resolves start w = distance g.Resolves start u + 1 := by
  obtain ⟨call, new⟩ := spread.mem_fresh.mp mem
  have leads := spread.reached u (List.mem_append_right _ List.mem_cons_self)
  refine Nat.le_antisymm (distance_le_succ leads call) (Nat.lt_of_not_le fun near => new ?_)
  exact spread.mem_of_steps (steps_distance (leads.tail call)) near

/-- The distances of what was met. -/
theorem distance_le (spread : Spread g start done (u :: rest) order) {a : FunctionId}
    (mem : a ∈ done ++ u :: rest) :
    distance g.Resolves start a ≤ distance g.Resolves start u + 1 := by
  rcases List.mem_append.mp mem with finished | waiting
  · exact Nat.le_succ_of_le
      ((List.pairwise_append.mp spread.nearest).2.2 a finished u List.mem_cons_self)
  · exact spread.narrow a waiting u List.mem_cons_self

/-- A round takes the head of the queue and puts what it meets new at the end. -/
theorem next (spread : Spread g start done (u :: rest) order) (closed : g.Closed) :
    Spread g start (done ++ [u]) (rest ++ g.fresh start order u)
    (order ++ g.fresh start order u) := by
  have row : (done ++ [u]) ++ (rest ++ g.fresh start order u) = (done ++ u :: rest) ++
      g.fresh start order u := by
    simp only [List.append_assoc, List.cons_append, List.nil_append]
  have head := spread.reached u (List.mem_append_right _ List.mem_cons_self)
  have further {a : FunctionId} (mem : a ∈ rest ++ g.fresh start order u) :
      distance g.Resolves start u ≤ distance g.Resolves start a ∧
      distance g.Resolves start a ≤ distance g.Resolves start u + 1 := by
    rcases List.mem_append.mp mem with waiting | new
    · have mem := List.mem_cons_of_mem u waiting
      exact ⟨spread.head_le mem, spread.distance_le (List.mem_append_right _ mem)⟩
    · rw [spread.distance_fresh new]
      exact ⟨Nat.le_succ _, Nat.le_refl _⟩
  refine ⟨?_, ?_, ?_, ?_, ?_, ?_, ?_⟩
  · rw [row, spread.met, List.cons_append]
  · rw [row]
    refine List.nodup_append.mpr ⟨spread.nodup, ((nodup_distinct _).filter _).filter _, ?_⟩
    rintro a old b new rfl
    exact (spread.mem_fresh.mp new).2 old
  · rw [row]
    refine List.append_subset.mpr ⟨spread.nodes, fun w new => ?_⟩
    obtain ⟨⟨e, he, _, rfl⟩, known⟩ := resolves_iff.mp (spread.mem_fresh.mp new).1
    exact (closed.callee e he).resolve_right known
  · rw [row]
    refine List.forall_mem_append.mpr ⟨spread.reached, fun w new => ?_⟩
    exact head.tail (spread.mem_fresh.mp new).1
  · rw [row]
    refine List.forall_mem_append.mpr ⟨fun v finished w call => ?_,
      List.forall_mem_singleton.mpr fun w call => ?_⟩
    · exact List.mem_append_left _ (spread.closed v finished w call)
    · refine List.mem_append.mpr ((em _).imp_right fun new => ?_)
      exact spread.mem_fresh.mpr ⟨call, new⟩
  · rw [row]
    refine List.pairwise_append.mpr ⟨spread.nearest, ?_, fun a old b new => ?_⟩
    · refine List.Pairwise.imp_of_mem (fun ha hb _ => ?_) (((nodup_distinct _).filter _).filter _)
      rw [spread.distance_fresh ha, spread.distance_fresh hb]
    · rw [spread.distance_fresh new]
      exact spread.distance_le old
  · intro a ha b hb
    exact Nat.le_trans (further ha).2 (Nat.succ_le_succ (further hb).1)

/-- The walk ends with an empty queue: each round is about another function. -/
theorem run (closed : g.Closed) {fuel : Nat} (spread : Spread g start done queue order)
    (enough : g.nodes.length < fuel + done.length) :
    ∃ done, Spread g start done [] (g.reachFrom start fuel queue order) := by
  induction fuel generalizing done queue order with
  | zero =>
    obtain ⟨distinct, _⟩ := List.nodup_append.mp spread.nodup
    have few := (distinct.subperm (List.append_subset.mp spread.nodes).1).length_le
    omega
  | succ fuel ih =>
    cases queue with
    | nil => exact ⟨done, spread⟩
    | cons u rest =>
      refine ih (spread.next closed) ?_
      rw [List.length_append, List.length_singleton]
      omega

end Spread

/-! ## The list -/

section Transitive

variable (closed : g.Closed) (node : start ∈ g.nodes)

include closed node

/-- At the end of the walk, all functions met are done. -/
theorem exists_spread : ∃ done, Spread g start done [] (g.transitiveCallees start) :=
  (spread_start node).run closed (Nat.lt_succ_self _)

theorem nodup_transitiveCallees : (g.transitiveCallees start).Nodup := by
  obtain ⟨done, spread⟩ := exists_spread closed node
  exact (List.nodup_cons.mp (spread.met ▸ spread.nodup)).2

theorem transitiveCallees_subset : g.transitiveCallees start ⊆ g.nodes := by
  obtain ⟨done, spread⟩ := exists_spread closed node
  exact (List.cons_subset.mp (spread.met ▸ spread.nodes)).2

theorem mem_transitiveCallees {h : FunctionId} :
    h ∈ g.transitiveCallees start ↔ h ≠ start ∧ TransGen g.Resolves start h := by
  obtain ⟨done, spread⟩ := exists_spread closed node
  have met := spread.met
  rw [List.append_nil] at met
  have all (leads : ReflTransGen g.Resolves start h) : h ∈ start :: g.transitiveCallees start := by
    induction leads with
    | refl => exact List.mem_cons_self
    | tail _ call ih => rw [← spread.met]; exact spread.closed _ (met ▸ ih) _ call
  constructor
  · intro mem
    have other : h ≠ start :=
      fun same => (List.nodup_cons.mp (spread.met ▸ spread.nodup)).1 (same ▸ mem)
    have leads := spread.reached h (spread.met ▸ List.mem_cons_of_mem _ mem)
    exact ⟨other, (Relation.reflTransGen_iff_eq_or_transGen.mp leads).resolve_left other⟩
  · rintro ⟨other, leads⟩
    exact (List.mem_cons.mp (all leads.to_reflTransGen)).resolve_left other

theorem pairwise_transitiveCallees : (g.transitiveCallees start).Pairwise fun a b =>
    distance g.Resolves start a ≤ distance g.Resolves start b := by
  obtain ⟨done, spread⟩ := exists_spread closed node
  exact (List.pairwise_cons.mp (spread.met ▸ spread.nearest)).2

end Transitive

end CallGraph

/-! ## The calls of a program -/

namespace Program

variable {p : Program} {f h : FunctionId}

/-- A function has a call that is known to go to another. -/
def Resolves (p : Program) (f h : FunctionId) : Prop := ∃ o ∈ p.opsOf f, (p.op o).target? = some h

section Loaded

variable {read : Sexp.Reader} {file text : String}
    (loaded : Program.loadWith read file text = .ok p)

include loaded

/-- The edges of the call graph between functions are the calls that are known to go to one. -/
theorem callGraph_resolves : p.callGraph.Resolves = p.Resolves := by
  funext f h
  refine propext (CallGraph.resolves_iff.trans ⟨?_, ?_⟩)
  · rintro ⟨⟨e, he, rfl, rfl⟩, known⟩
    obtain ⟨f, _, o, call, rfl⟩ := mem_callGraph_edges.mp he
    obtain ⟨inside, call⟩ := List.mem_filter.mp call
    exact ⟨o, inside, (goes_iff known).mp ⟨call, rfl⟩⟩
  · rintro ⟨o, inside, target⟩
    obtain ⟨isCall, callee⟩ := target?_eq_some.mp target
    have call : o ∈ p.callsOf f := List.mem_filter.mpr ⟨inside, isCall⟩
    have known : h ≠ CallGraph.sink := fun same =>
      sink_notMem_functionIds loaded (same ▸ mem_functionIds_of_callee loaded call callee)
    refine ⟨⟨p.callEdge f o, ?_, rfl, ((goes_iff known).mpr target).2⟩, known⟩
    exact mem_callGraph_edges.mpr ⟨f, mem_definedFunctions loaded inside, o, call, rfl⟩

end Loaded

end Program

/-- The functions of a chain after the first are called by it, directly or indirectly. -/
theorem Report.BornOut.leads_to {p : Program} (shape : p.Shape) {config : Config} {site : LockSite}
    {group : List LockSite} {releases : List OpId} {r : Report}
    (bornOut : r.BornOut p config site group releases) {first : FunctionId}
    (head : r.chain[0]? = some first) {i : Nat} {h : FunctionId}
    (place : r.chain[i + 1]? = some h) :
    TransGen p.Resolves first h := by
  have call {i : Nat} {h : FunctionId} (place : r.chain[i + 1]? = some h) :
      ∃ f, r.chain[i]? = some f ∧ p.Resolves f h := by
    have inside : i < r.calls.length := by
      have := (List.getElem?_eq_some_iff.mp place).1
      have := bornOut.calls_length
      omega
    obtain ⟨f, h', _, here, there, stands, enters, _⟩ :=
      bornOut.call (List.getElem?_eq_getElem inside)
    obtain rfl : h = h' := Option.some.inj (place.symm.trans there)
    exact ⟨f, here, _, Program.mem_opsOf_of_functionOf? shape stands, enters.target⟩
  induction i generalizing h with
  | zero =>
    obtain ⟨f, here, resolves⟩ := call place
    obtain rfl : first = f := Option.some.inj (head.symm.trans here)
    exact .single resolves
  | succ i ih =>
    obtain ⟨f, here, resolves⟩ := call place
    exact (ih here).tail resolves

/-- The functions that a function reaches by calls are listed once each, without itself and the
sink, the nearer ones first. The functions of a report's chain are listed for the first of them. -/
theorem transitiveCallees_breadthFirst {read : Sexp.Reader} {file text : String} {p : Program}
    (loaded : Program.loadWith read file text = .ok p) :
    (∀ f ∈ p.functionIds, (p.callGraph.transitiveCallees f).Nodup ∧
      p.callGraph.transitiveCallees f ⊆ p.functionIds ∧
      CallGraph.sink ∉ p.callGraph.transitiveCallees f ∧
      (∀ h, h ∈ p.callGraph.transitiveCallees f ↔ h ≠ f ∧ TransGen p.Resolves f h) ∧
      (p.callGraph.transitiveCallees f).Pairwise fun a b =>
      distance p.Resolves f a ≤ distance p.Resolves f b) ∧
    ∀ (config : Config) (site : LockSite) (b : BlockId) (group : List LockSite)
    (releases : List OpId),
      (p.op site.op).block = some b → ∃ result, p.query config site group releases = .ok result ∧
        ∀ r ∈ result.reports, ∃ first later, r.chain = first :: later ∧
        later ⊆ p.callGraph.transitiveCallees first := by
  have shape := Program.shape_of_load loaded
  have closed := Program.callGraph_closed loaded
  rw [← Program.callGraph_resolves loaded]
  refine ⟨fun f node => ?_, fun config site b group releases attached => ?_⟩
  · have functions := CallGraph.transitiveCallees_subset closed node
    exact ⟨CallGraph.nodup_transitiveCallees closed node, functions,
      fun mem => closed.sink (functions mem), fun h => CallGraph.mem_transitiveCallees closed node,
        CallGraph.pairwise_transitiveCallees closed node⟩
  · obtain ⟨result, answered⟩ := Program.query_answers config attached group releases
    refine ⟨result, answered, fun r hr => ?_⟩
    have bornOut := bornOut_of_query shape attached answered hr
    have starts := bornOut.starts
    cases chain : r.chain with
    | nil => rw [chain, Program.functionOf?_of_block attached] at starts; cases starts
    | cons first later =>
      refine ⟨first, later, rfl, fun h mem => ?_⟩
      rw [chain, List.head?_cons] at starts
      have node := Program.mem_functionIds_of_functionOf? loaded starts.symm
      refine (CallGraph.mem_transitiveCallees closed node).mpr ⟨?_, ?_⟩
      · rintro rfl
        exact (List.nodup_cons.mp (chain ▸ bornOut.distinct)).1 mem
      · obtain ⟨i, place⟩ := List.mem_iff_getElem?.mp mem
        rw [Program.callGraph_resolves loaded]
        refine bornOut.leads_to shape (i := i) ?_ ?_
        · rw [chain, List.getElem?_cons_zero]
        · rw [chain, List.getElem?_cons_succ, place]

set_option maxRecDepth 4000 in
/-- In `nestedText`, `mid` calls itself through `inner` and is not listed for itself; `inner` is the
furthest from `outer`, and a report comes through all three. -/
theorem transitiveCallees_breadthFirst_nested :
    ∃ p result, Program.load "nested" nestedText = .ok p ∧
    p.callGraph.transitiveCallees 2 = [15, 3, 17, 4] ∧
    distance p.Resolves 2 17 ≤ distance p.Resolves 2 4 ∧
    p.callGraph.transitiveCallees 3 = [4, 15] ∧ TransGen p.Resolves 3 3 ∧
    p.query nestedConfig (nestedSite 6) [nestedSite 22] [13] = .ok result ∧
    result.reports.map (·.chain) = [[2, 3, 4]] ∧
    ∀ r ∈ result.reports, ∃ first later, r.chain = first :: later ∧
    later ⊆ p.callGraph.transitiveCallees first := by
  obtain ⟨p, loaded, checked⟩ : ∃ p, Program.load "nested" nestedText = .ok p ∧
      decide ((p.op 6).block = some 5 ∧ p.functionIds = [2, 3, 4, 15, 17] ∧
        p.callGraph.transitiveCallees 2 = [15, 3, 17, 4] ∧
        p.callGraph.transitiveCallees 3 = [4, 15] ∧
        p.callGraph.transitiveCallees 4 = [15, 3] ∧
        ((p.query nestedConfig (nestedSite 6) [nestedSite 22] [13]).toOption.map fun result =>
          result.reports.map (·.chain)) = some [[2, 3, 4]]) = true :=
    Program.exists_of_load rfl (by decide +kernel)
  obtain ⟨attached, functions, outer, mid, inner, found⟩ := of_decide_eq_true checked
  obtain ⟨listed, reported⟩ := transitiveCallees_breadthFirst loaded
  rw [functions] at listed
  obtain ⟨_, _, _, _, nearest⟩ := listed 2 (by decide)
  obtain ⟨_, _, _, down, _⟩ := listed 3 (by decide)
  obtain ⟨_, _, _, back, _⟩ := listed 4 (by decide)
  obtain ⟨result, answered, chains⟩ :=
    reported nestedConfig (nestedSite 6) 5 [nestedSite 22] [13] attached
  rw [outer] at nearest
  rw [answered] at found
  have further : distance p.Resolves 2 17 ≤ distance p.Resolves 2 4 := by
    simp only [List.pairwise_cons, List.mem_cons, forall_eq_or_imp] at nearest
    exact nearest.2.2.1.1
  have there := ((down 4).mp (by rw [mid]; decide)).2
  have again := ((back 3).mp (by rw [inner]; decide)).2
  exact ⟨p, result, loaded, outer, further, mid, there.trans again, answered,
    Option.some.inj found, chains⟩

end Relock
