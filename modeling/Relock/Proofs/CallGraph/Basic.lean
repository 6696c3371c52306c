import Mathlib.Logic.Relation
import Relock.CallGraph.Basic
import Relock.Proofs.Program.Faithful
import Relock.Proofs.Program.Ops
import Relock.Proofs.Program.Reserved

/-!
# The nodes and edges of a call graph

The call graph of a loaded program is closed: its edges go from functions to functions or to the
sink, which is no function (`Closed`). What is said of its walks needs nothing else of it.
-/

namespace Relock
namespace CallGraph

variable {g : CallGraph}

/-- A node has a call that goes to another. -/
def Calls (g : CallGraph) (u w : Nat) : Prop := ∃ e ∈ g.edges, e.caller = u ∧ e.callee = w

/-- Calls lead from a node to another, in any number. -/
def Leads (g : CallGraph) : Nat → Nat → Prop := Relation.ReflTransGen g.Calls

/-- Edges stay among the functions and the sink. -/
structure Closed (g : CallGraph) : Prop where
  nodup : g.nodes.Nodup
  sink : sink ∉ g.nodes
  caller : ∀ e ∈ g.edges, e.caller ∈ g.nodes
  callee : ∀ e ∈ g.edges, e.callee ∈ g.nodes ∨ e.callee = CallGraph.sink

theorem mem_distinct {ns : List Nat} {n : Nat} : n ∈ distinct ns ↔ n ∈ ns := by
  have fold (seen : List Nat) :
      n ∈ ns.foldl (fun seen n => if n ∈ seen then seen else seen ++ [n]) seen ↔
        n ∈ seen ∨ n ∈ ns := by
    induction ns generalizing seen with
    | nil => simp only [List.foldl_nil, List.not_mem_nil, or_false]
    | cons m ns ih =>
      rw [List.foldl_cons, ih, List.mem_cons]
      by_cases known : m ∈ seen
      · rw [if_pos known]
        refine ⟨Or.imp_right .inr, ?_⟩
        rintro (old | rfl | new)
        · exact .inl old
        · exact .inl known
        · exact .inr new
      · rw [if_neg known, List.mem_append, List.mem_singleton, or_assoc]
  rw [distinct, fold]
  exact or_iff_right List.not_mem_nil

theorem nodup_distinct (ns : List Nat) : (distinct ns).Nodup := by
  have fold (seen : List Nat) (nodup : seen.Nodup) :
      (ns.foldl (fun seen n => if n ∈ seen then seen else seen ++ [n]) seen).Nodup := by
    induction ns generalizing seen with
    | nil => exact nodup
    | cons m ns ih =>
      rw [List.foldl_cons]
      refine ih _ ?_
      split
      next => exact nodup
      next new =>
        refine List.nodup_append.mpr ⟨nodup, List.pairwise_singleton _ m, ?_⟩
        rintro a old b last rfl
        exact new (List.mem_singleton.mp last ▸ old)
  exact fold [] List.nodup_nil

theorem mem_callees {u w : Nat} : w ∈ g.callees u ↔ g.Calls u w := by
  simp only [callees, edgesFrom, mem_distinct, List.mem_map, List.mem_filter, decide_eq_true_eq,
    Calls, and_assoc]

end CallGraph

namespace Program

variable {p : Program}

theorem mem_callGraph_edges {e : CallEdge} : e ∈ p.callGraph.edges ↔
    ∃ f ∈ p.definedFunctions, ∃ o ∈ p.callsOf f, p.callEdge f o = e := by
  simp only [callGraph, List.mem_flatMap, List.mem_map]

section Loaded

variable {read : Sexp.Reader} {file text : String}
    (loaded : Program.loadWith read file text = .ok p)

include loaded

/-- A known callee is one of the functions. -/
theorem mem_functionIds_of_callee {f h : FunctionId} {o : OpId} (call : o ∈ p.callsOf f)
    (target : (p.op o).callee.function? = some h) : h ∈ p.functionIds := by
  have faithful := faithful_of_load loaded
  obtain ⟨b, _, mem⟩ := mem_opsOf.mp (List.mem_filter.mp call).1
  obtain ⟨op, known⟩ := faithful.shape.op?_of_mem mem
  obtain ⟨_, _, _, _, fits⟩ := faithful.sane.fitted.op known
  rw [op_eq known] at target
  have callable := fits.callee
  cases callee : op.callee with
  | direct g name =>
    rw [callee] at callable target
    obtain rfl : g = h := Option.some.inj target
    obtain ⟨fn, function, _⟩ := callable
    refine (built_of_load loaded).mem_functionIds ?_
    rw [function?_eq_some.mp function]
    rfl
  | absent => rw [callee] at target; cases target
  | indirect v name => rw [callee] at target; cases target

/-- The function of an operation is one of the functions. -/
theorem mem_functionIds_of_functionOf?
    {f : FunctionId} {o : OpId} (inside : p.functionOf? o = some f) :
    f ∈ p.functionIds := by
  obtain ⟨fn, known⟩ :=
    Option.isSome_iff_exists.mp (function?_of_functionOf? (shape_of_load loaded) inside)
  refine (built_of_load loaded).mem_functionIds ?_
  rw [function?_eq_some.mp known]
  rfl

/-- A function with an operation has a body. -/
theorem mem_definedFunctions {f : FunctionId} {o : OpId} (inside : o ∈ p.opsOf f) :
    f ∈ p.definedFunctions := by
  have shape := shape_of_load loaded
  refine List.mem_filter.mpr
    ⟨mem_functionIds_of_functionOf? loaded (functionOf?_of_mem_opsOf shape inside), ?_⟩
  obtain ⟨b, held, _⟩ := mem_opsOf.mp inside
  rw [Function.isDeclaration, List.isEmpty_eq_false_iff_exists_mem.mpr ⟨b, held⟩]
  rfl

theorem sink_notMem_functionIds : CallGraph.sink ∉ p.functionIds := fun mem =>
  (reserved_of_load loaded).function_ne ((shape_of_load loaded).registered.known _ mem) rfl

/-- Number 0 is no function's, so that the calls that go to it are those of unknown functions. -/
theorem calls_sink_iff : (∃ u, p.callGraph.Calls u CallGraph.sink) ↔
    ∃ f ∈ p.definedFunctions, ∃ o ∈ p.callsOf f, (p.op o).callee.function? = none := by
  constructor
  · rintro ⟨u, e, he, rfl, unknown⟩
    obtain ⟨f, defined, o, call, rfl⟩ := mem_callGraph_edges.mp he
    refine ⟨f, defined, o, call, Option.eq_none_iff_forall_ne_some.mpr fun h target => ?_⟩
    rw [callEdge, target, Option.getD_some] at unknown
    exact sink_notMem_functionIds loaded (unknown ▸ mem_functionIds_of_callee loaded call target)
  · rintro ⟨f, defined, o, call, unknown⟩
    refine ⟨f, p.callEdge f o, mem_callGraph_edges.mpr ⟨f, defined, o, call, rfl⟩, rfl, ?_⟩
    rw [callEdge, unknown, Option.getD_none]

theorem callGraph_closed : p.callGraph.Closed := by
  refine ⟨(shape_of_load loaded).registered.distinct, sink_notMem_functionIds loaded,
    fun e he => ?_, fun e he => ?_⟩
  · obtain ⟨f, defined, o, _, rfl⟩ := mem_callGraph_edges.mp he
    exact (List.mem_filter.mp defined).1
  · obtain ⟨f, defined, o, call, rfl⟩ := mem_callGraph_edges.mp he
    cases target : (p.op o).callee.function? with
    | none => exact .inr (by rw [callEdge, target, Option.getD_none])
    | some h =>
      refine .inl ?_
      rw [callEdge, target, Option.getD_some]
      exact mem_functionIds_of_callee loaded call target

end Loaded

end Program
end Relock
