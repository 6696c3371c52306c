import Relock.CallGraph.Basic
import Relock.Proofs.Program.Shape

/-!
# The operations of a program

In a program in shape every operation stands in one block and every block in one function, so that
the walks over a function, over the program and over the calls of a function meet each operation
once.
-/

namespace Relock.Program

variable {p : Program}

theorem mem_opsOf {f : FunctionId} {o : OpId} :
    o ∈ p.opsOf f ↔ ∃ b ∈ (p.function f).blocks, o ∈ (p.block b).ops :=
  List.mem_flatMap

theorem functionOf?_of_mem_opsOf (shape : p.Shape) {f : FunctionId} {o : OpId} (h : o ∈ p.opsOf f) :
    p.functionOf? o = some f := by
  obtain ⟨b, hb, ho⟩ := mem_opsOf.mp h
  exact shape.functionOf?_of_mem hb ho

theorem mem_opsOf_of_functionOf?
    (shape : p.Shape) {f : FunctionId} {o : OpId} (h : p.functionOf? o = some f) :
    o ∈ p.opsOf f := by
  obtain ⟨b, block, rfl⟩ := Option.map_eq_some_iff.mp h
  exact mem_opsOf.mpr ⟨b, shape.mem_blocks_of_op block, shape.mem_of_op block⟩

/-- The function that an operation stands in is a function of the table. -/
theorem function?_of_functionOf?
    (shape : p.Shape) {o : OpId} {f : FunctionId} (h : p.functionOf? o = some f) :
    (p.function? f).isSome := by
  obtain ⟨b, block, rfl⟩ := Option.map_eq_some_iff.mp h
  have held := shape.mem_blocks_of_op block
  cases known : p.function? (p.block b).function with
  | some fn => rfl
  | none =>
    rw [Program.function, known] at held
    exact absurd held List.not_mem_nil

theorem opsOf_nodup (shape : p.Shape) (f : FunctionId) : (p.opsOf f).Nodup := by
  refine List.pairwise_flatMap.mpr ⟨fun b _ => shape.ops_nodup b, ?_⟩
  refine (shape.blocks_nodup f).imp fun {b c} other x hx y hy same => other ?_
  have home := shape.op_of_mem hx
  rw [same, shape.op_of_mem hy] at home
  exact (Option.some.inj home).symm

/-- The operations of a program are those of its functions; declarations have none. -/
theorem allOps_eq_flatMap_opsOf (p : Program) : p.allOps = p.functionIds.flatMap p.opsOf := by
  rw [allOps, definedFunctions]
  induction p.functionIds with
  | nil => rfl
  | cons f fs ih =>
    rw [List.flatMap_cons, ← ih]
    cases blocks : (p.function f).blocks with
    | nil =>
      rw [List.filter_cons_of_neg (by simp [Function.isDeclaration, blocks]), opsOf, blocks,
        List.flatMap_nil, List.nil_append]
    | cons b bs =>
      rw [List.filter_cons_of_pos (by simp [Function.isDeclaration, blocks]), List.flatMap_cons]

/-- An operation of the program stands in a block. -/
theorem block_of_mem_allOps (shape : p.Shape) {o : OpId} (h : o ∈ p.allOps) :
    ∃ b, (p.op o).block = some b := by
  obtain ⟨f, _, hf⟩ := List.mem_flatMap.mp h
  obtain ⟨b, _, ho⟩ := mem_opsOf.mp hf
  exact ⟨b, shape.op_of_mem ho⟩

theorem allOps_nodup (shape : p.Shape) : p.allOps.Nodup := by
  have defined : p.definedFunctions.Nodup := shape.registered.distinct.sublist List.filter_sublist
  refine List.pairwise_flatMap.mpr ⟨fun f _ => opsOf_nodup shape f, ?_⟩
  refine defined.imp fun {f g} other x hx y hy same => other ?_
  have home := functionOf?_of_mem_opsOf shape hx
  rw [same, functionOf?_of_mem_opsOf shape hy] at home
  exact (Option.some.inj home).symm

/-- The calls of the call graph are those of the program, in program order. -/
theorem callGraph_ops (p : Program) :
    p.callGraph.edges.map (·.op) = p.allOps.filter fun o => (p.op o).isCall := by
  have row (f : FunctionId) : ((p.callsOf f).map (p.callEdge f)).map (·.op) = p.callsOf f := by
    rw [List.map_map]
    exact List.map_id _
  simp only [callGraph, allOps, List.map_flatMap, List.filter_flatMap, row]
  rfl

theorem callSitesOf_sublist (p : Program) (f : FunctionId) :
    (p.callGraph.callSitesOf f).Sublist p.allOps := by
  have calls : (p.callGraph.callSitesOf f).Sublist (p.callGraph.edges.map (·.op)) :=
    List.filter_sublist.map _
  rw [callGraph_ops] at calls
  exact calls.trans List.filter_sublist

theorem target?_eq_some {o : OpId} {f : FunctionId} :
    (p.op o).target? = some f ↔ (p.op o).isCall = true ∧ (p.op o).callee.function? = some f := by
  rw [Operation.target?, Option.ite_none_right_eq_some]
  rfl

/-- An edge goes to a function just if the call is known to. -/
theorem goes_iff {f : FunctionId} (known : f ≠ CallGraph.sink) {o : OpId} :
    (p.op o).isCall = true ∧ (p.op o).callee.function?.getD CallGraph.sink = f ↔
      (p.op o).target? = some f := by
  rw [target?_eq_some]
  refine and_congr_right fun _ => ?_
  cases (p.op o).callee.function? with
  | none => exact iff_of_false known.symm (Option.some_ne_none f).symm
  | some g => rw [Option.getD_some, Option.some.injEq]

/-- The calls of a function are the operations of the program that statically go to it. A call of no
known function goes to number 0, which is no function's. -/
theorem mem_callSitesOf {f : FunctionId} (known : f ≠ CallGraph.sink) {c : OpId} :
    c ∈ p.callGraph.callSitesOf f ↔ c ∈ p.allOps ∧ (p.op c).target? = some f := by
  simp only [CallGraph.callSitesOf, CallGraph.edgesTo, callGraph, allOps, List.mem_map,
    List.mem_filter, List.mem_flatMap, decide_eq_true_eq]
  constructor
  · rintro ⟨_, ⟨⟨g, defined, o, mem, rfl⟩, goes⟩, rfl⟩
    obtain ⟨inside, call⟩ := List.mem_filter.mp mem
    exact ⟨⟨g, defined, inside⟩, (goes_iff known).mp ⟨call, goes⟩⟩
  · rintro ⟨⟨g, defined, inside⟩, target⟩
    obtain ⟨call, goes⟩ := (goes_iff known).mpr target
    exact ⟨p.callEdge g c, ⟨⟨g, defined, c, List.mem_filter.mpr ⟨inside, call⟩, rfl⟩, goes⟩, rfl⟩

end Relock.Program
