import Relock.Proofs.CallGraph.Basic
import Relock.Proofs.Keyed
import Relock.Proofs.Lifetime.Buckets
import Relock.Proofs.Program.Numbering

/-!
# Call graphs recorded call by call

A call graph may be put down call by call. Each edge is then recorded in four places at once: in the
row of all edges, with its caller, with its callee and under its operation; and a callee without a
node gets one first. `Indexed` is what one more edge keeps: the last three places give parts of the
row of all edges.

In a loaded program every callee that is known is a function of the table, so that no call adds a
node. The record of all calls is then the call graph (`CallRecord.Agrees`), and the call graph
mirrors the calls of the program (`CallGraph.Mirrors`).
-/

namespace Relock

/-! ## Records -/

/-- A call graph as it is put down. -/
structure CallRecord where
  nodes : List FunctionId := []
  edges : List CallEdge := []
  leaving : Keyed Nat (List CallEdge) := []
  entering : Keyed Nat (List CallEdge) := []
  byOp : Keyed OpId CallEdge := []

namespace CallRecord

/-- Adds the node of a function if it has none yet. -/
def addNode (r : CallRecord) (f : FunctionId) : CallRecord :=
  if f ∈ r.nodes then r else { r with nodes := r.nodes ++ [f] }

/-- Records an edge in its four places. -/
def addEdge (r : CallRecord) (e : CallEdge) : CallRecord :=
  { r with
    edges := r.edges ++ [e]
    leaving := r.leaving.update e.caller [] (· ++ [e])
    entering := r.entering.update e.callee [] (· ++ [e])
    byOp := r.byOp.set e.op e }

/-- The edges that are recorded with a node as their caller. -/
def edgesFrom (r : CallRecord) (n : Nat) : List CallEdge := (r.leaving.get? n).getD []

/-- The edges that are recorded with a node as their callee. -/
def edgesTo (r : CallRecord) (n : Nat) : List CallEdge := (r.entering.get? n).getD []

/-- The edge that is recorded under an operation. -/
def edgeFor? (r : CallRecord) (o : OpId) : Option CallEdge := r.byOp.get? o

/-- What is recorded with a node or under an operation is what the row of all edges has for it;
under an operation, the last edge. -/
structure Indexed (r : CallRecord) : Prop where
  leaving : ∀ n, r.edgesFrom n = r.edges.filter fun e => e.caller = n
  entering : ∀ n, r.edgesTo n = r.edges.filter fun e => e.callee = n
  byOp : ∀ o, r.edgeFor? o = r.edges.reverse.find? fun e => e.op = o

variable {r : CallRecord}

theorem indexed_nodes (nodes : List FunctionId) : Indexed { nodes := nodes } where
  leaving _ := rfl
  entering _ := rfl
  byOp _ := rfl

theorem addNode_of_mem {f : FunctionId} (known : f ∈ r.nodes) : r.addNode f = r := if_pos known

/-- One more edge under a key goes to the end of what stands there. -/
theorem getD_update_concat {row : Keyed Nat (List CallEdge)} {edges : List CallEdge}
    {key : CallEdge → Nat} (parts : ∀ n, (row.get? n).getD [] = edges.filter fun e => key e = n)
    (e : CallEdge) (n : Nat) :
    ((row.update (key e) [] (· ++ [e])).get? n).getD [] =
      (edges ++ [e]).filter fun e => key e = n := by
  rw [Keyed.update, Keyed.get?_set, List.filter_append]
  by_cases same : key e = n
  · simp only [same, if_true, Option.getD_some, parts, List.filter_cons, decide_true,
      List.filter_nil]
  · simp only [same, if_false, parts, List.filter_cons, decide_false, Bool.false_eq_true,
      List.filter_nil, List.append_nil]

theorem Indexed.addEdge (indexed : r.Indexed) (e : CallEdge) : (r.addEdge e).Indexed where
  leaving := getD_update_concat indexed.leaving e
  entering := getD_update_concat indexed.entering e
  byOp o := by
    show (r.byOp.set e.op e).get? o = (r.edges ++ [e]).reverse.find? _
    rw [Keyed.get?_set, List.reverse_append, List.reverse_singleton, List.singleton_append,
      List.find?_cons]
    by_cases same : e.op = o
    · rw [if_pos same, decide_eq_true same]
    · rw [if_neg same, decide_eq_false same]
      exact indexed.byOp o

theorem nodes_foldl_addNode {fs : List FunctionId} (new : (r.nodes ++ fs).Nodup) :
    fs.foldl addNode r = { r with nodes := r.nodes ++ fs } := by
  induction fs generalizing r with
  | nil => rw [List.append_nil, List.foldl_nil]
  | cons f fs ih =>
    have absent : f ∉ r.nodes :=
      fun mem => (List.nodup_append.mp new).2.2 f mem f List.mem_cons_self rfl
    rw [List.append_cons] at new
    rw [List.foldl_cons, CallRecord.addNode, if_neg absent, ih new, ← List.append_cons]

end CallRecord

namespace Program

variable {p : Program}

/-- The calls of a program with the functions that they stand in, in program order. -/
def calls (p : Program) : List (FunctionId × OpId) :=
  p.definedFunctions.flatMap fun f => (p.callsOf f).map (f, ·)

/-- Records a call. A callee that is known gets a node first, if it has none. -/
def recordCall (p : Program) (r : CallRecord) (call : FunctionId × OpId) : CallRecord :=
  match (p.op call.2).callee.function? with
  | some h => (r.addNode h).addEdge ⟨call.1, h, call.2⟩
  | none => r.addEdge ⟨call.1, CallGraph.sink, call.2⟩

/-- The record of all functions and of some calls. -/
def recordCalls (p : Program) (calls : List (FunctionId × OpId)) : CallRecord :=
  calls.foldl p.recordCall (p.functionIds.foldl CallRecord.addNode {})

/-- What a record of some calls holds: no nodes but the functions, and an edge for each call. -/
structure Recorded (p : Program) (calls : List (FunctionId × OpId)) (r : CallRecord) : Prop where
  nodes : r.nodes = p.functionIds
  edges : r.edges = calls.map fun call => p.callEdge call.1 call.2
  indexed : r.Indexed

variable {done calls : List (FunctionId × OpId)} {r : CallRecord}

/-- A call whose callee is a function, if it is known, adds no node. -/
theorem recordCall_eq {call : FunctionId × OpId}
    (known : ∀ h, (p.op call.2).callee.function? = some h → h ∈ r.nodes) :
    p.recordCall r call = r.addEdge (p.callEdge call.1 call.2) := by
  unfold recordCall callEdge
  cases target : (p.op call.2).callee.function? with
  | none => rfl
  | some h =>
    show (r.addNode h).addEdge _ = _
    rw [CallRecord.addNode_of_mem (known h target)]
    rfl

theorem Recorded.step (recorded : p.Recorded done r) {call : FunctionId × OpId}
    (known : ∀ h, (p.op call.2).callee.function? = some h → h ∈ p.functionIds) :
    p.Recorded (done ++ [call]) (p.recordCall r call) := by
  rw [recordCall_eq (recorded.nodes ▸ known)]
  refine ⟨recorded.nodes, ?_, recorded.indexed.addEdge _⟩
  rw [List.map_append, ← recorded.edges]
  rfl

theorem Recorded.run (recorded : p.Recorded done r)
    (known : ∀ call ∈ calls, ∀ h, (p.op call.2).callee.function? = some h → h ∈ p.functionIds) :
    p.Recorded (done ++ calls) (calls.foldl p.recordCall r) := by
  induction calls generalizing done r with
  | nil => rwa [List.append_nil]
  | cons call calls ih =>
    obtain ⟨here, later⟩ := List.forall_mem_cons.mp known
    rw [List.append_cons]
    exact ih (recorded.step here) later

theorem mem_calls {call : FunctionId × OpId} :
    call ∈ p.calls ↔ call.1 ∈ p.definedFunctions ∧ call.2 ∈ p.callsOf call.1 := by
  obtain ⟨f, o⟩ := call
  simp only [Program.calls, List.mem_flatMap, List.mem_map, Prod.mk.injEq]
  constructor
  · rintro ⟨_, defined, _, inside, rfl, rfl⟩
    exact ⟨defined, inside⟩
  · rintro ⟨defined, inside⟩
    exact ⟨f, defined, o, inside, rfl, rfl⟩

theorem callGraph_edges (p : Program) :
    p.callGraph.edges = p.calls.map fun call => p.callEdge call.1 call.2 := by
  simp only [callGraph, Program.calls, List.map_flatMap, List.map_map]
  rfl

end Program

/-! ## The calls of a loaded program -/

/-- A record is that of a call graph. -/
structure CallRecord.Agrees (r : CallRecord) (g : CallGraph) : Prop where
  nodes : r.nodes = g.nodes
  edges : r.edges = g.edges
  /-- With a node are recorded the edges that leave it and those that enter it, in order. -/
  parts : ∀ n, r.edgesFrom n = g.edges.filter (fun e => e.caller = n) ∧
    r.edgesTo n = g.edges.filter (fun e => e.callee = n)
  byOp : ∀ o, r.edgeFor? o = g.edgeFor? o

/-- The nodes of a call graph are the functions of a program, and its edges are the calls. -/
structure CallGraph.Mirrors (g : CallGraph) (p : Program) : Prop where
  nodes : g.nodes = p.functionIds
  /-- An edge for each call, in program order. -/
  ops : g.edges.map (·.op) = p.allOps.filter fun o => (p.op o).kind = .call ∨
    (p.op o).kind = .invoke
  once : (g.edges.map (·.op)).Nodup
  caller : ∀ e ∈ g.edges, p.functionOf? e.op = some e.caller ∧ e.caller ∈ g.nodes
  callee : ∀ e ∈ g.edges, ∀ h, (p.op e.op).callee.function? = some h → e.callee = h ∧ h ∈ g.nodes
  sink : ∀ e ∈ g.edges, e.callee = CallGraph.sink ↔ (p.op e.op).callee.function? = none
  edgeFor : ∀ o e, g.edgeFor? o = some e ↔ e ∈ g.edges ∧ e.op = o
  /-- The calls of a function are all that go to it, in order of their numbers. -/
  callSites : ∀ f ∈ g.nodes, (g.callSitesOf f).Pairwise (· < ·) ∧
    ∀ o, o ∈ g.callSitesOf f ↔ o ∈ p.allOps ∧ (p.op o).target? = some f

namespace Program

section Loaded

variable {p : Program} {read : Sexp.Reader} {file text : String}
    (loaded : Program.loadWith read file text = .ok p)

include loaded

/-- An edge is that of its operation in the function that the operation stands in. -/
theorem functionOf?_of_mem_edges {e : CallEdge} (mem : e ∈ p.callGraph.edges) :
    p.functionOf? e.op = some e.caller ∧ e = p.callEdge e.caller e.op := by
  obtain ⟨f, _, o, call, rfl⟩ := mem_callGraph_edges.mp mem
  exact ⟨functionOf?_of_mem_opsOf (shape_of_load loaded) (List.mem_filter.mp call).1, rfl⟩

theorem edgeFor?_eq_some_iff {o : OpId} {e : CallEdge} :
    p.callGraph.edgeFor? o = some e ↔ e ∈ p.callGraph.edges ∧ e.op = o := by
  have sound {e : CallEdge} (found : p.callGraph.edgeFor? o = some e) : e ∈ p.callGraph.edges ∧
      e.op = o := by
    have accepted := List.find?_some found
    exact ⟨List.mem_reverse.mp (List.mem_of_find?_eq_some found), of_decide_eq_true accepted⟩
  refine ⟨sound, ?_⟩
  rintro ⟨mem, is⟩
  have one : (p.callGraph.edgeFor? o).isSome :=
    List.find?_isSome.mpr ⟨e, List.mem_reverse.mpr mem, decide_eq_true is⟩
  obtain ⟨e', found⟩ := Option.isSome_iff_exists.mp one
  -- both are the edge of the operation in its function
  obtain ⟨home, same⟩ := functionOf?_of_mem_edges loaded mem
  obtain ⟨home', same'⟩ := functionOf?_of_mem_edges loaded (sound found).1
  rw [is] at home same
  rw [(sound found).2] at home' same'
  rw [found, same', same, Option.some.inj (home'.symm.trans home)]

/-- A call goes to the sink exactly if its callee is unknown. -/
theorem callEdge_sink_iff {f : FunctionId} {o : OpId} (call : o ∈ p.callsOf f) :
    (p.callEdge f o).callee = CallGraph.sink ↔ (p.op o).callee.function? = none := by
  show (p.op o).callee.function?.getD CallGraph.sink = CallGraph.sink ↔ _
  cases target : (p.op o).callee.function? with
  | none => exact iff_of_true rfl rfl
  | some h =>
    refine iff_of_false (fun same => ?_) (Option.some_ne_none h)
    exact sink_notMem_functionIds loaded (same ▸ mem_functionIds_of_callee loaded call target)

theorem callSitesOf_increasing (f : FunctionId) : (p.callGraph.callSitesOf f).Pairwise (· < ·) :=
  (allOps_increasing_of_load loaded).sublist (p.callSitesOf_sublist f)

theorem mirrors_callGraph : p.callGraph.Mirrors p where
  nodes := rfl
  ops := by
    rw [callGraph_ops]
    refine List.filter_congr fun o _ => ?_
    rw [Bool.eq_iff_iff, decide_eq_true_eq]
    exact OpKind.isCall_iff
  once := by
    rw [callGraph_ops]
    exact (allOps_nodup (shape_of_load loaded)).filter _
  caller e mem := ⟨(functionOf?_of_mem_edges loaded mem).1, (callGraph_closed loaded).caller e mem⟩
  callee e mem h target := by
    obtain ⟨f, _, o, call, rfl⟩ := mem_callGraph_edges.mp mem
    refine ⟨?_, mem_functionIds_of_callee loaded call target⟩
    show (p.op o).callee.function?.getD CallGraph.sink = h
    rw [show (p.op o).callee.function? = some h from target, Option.getD_some]
  sink e mem := by
    obtain ⟨f, _, o, call, rfl⟩ := mem_callGraph_edges.mp mem
    exact callEdge_sink_iff loaded call
  edgeFor _ _ := edgeFor?_eq_some_iff loaded
  callSites f node :=
    have known : f ≠ CallGraph.sink := fun same => sink_notMem_functionIds loaded (same ▸ node)
    ⟨callSitesOf_increasing loaded f, fun _ => mem_callSitesOf known⟩

/-- The record of some of the calls of a program. -/
theorem recorded_recordCalls {calls : List (FunctionId × OpId)} (subset : calls ⊆ p.calls) :
    p.Recorded calls (p.recordCalls calls) := by
  have distinct := (shape_of_load loaded).registered.distinct
  have start : p.Recorded [] (p.functionIds.foldl CallRecord.addNode {}) := by
    rw [CallRecord.nodes_foldl_addNode distinct]
    exact ⟨rfl, rfl, CallRecord.indexed_nodes _⟩
  refine start.run fun call mem h target => ?_
  exact mem_functionIds_of_callee loaded (mem_calls.mp (subset mem)).2 target

end Loaded

end Program

/-- The call graph of a loaded program mirrors its calls. Recorded call by call it is the same, and
no call adds a node: its callee, if it is known, has one before. -/
theorem callGraph_mirrors {read : Sexp.Reader} {file text : String} {p : Program}
    (loaded : Program.loadWith read file text = .ok p) :
    p.callGraph.Mirrors p ∧ (p.recordCalls p.calls).Agrees p.callGraph ∧
    ∀ before f o after, p.calls = before ++ (f, o) :: after →
    (p.recordCalls before).nodes = p.functionIds ∧
      ∀ h, (p.op o).callee.function? = some h → h ∈ (p.recordCalls before).nodes := by
  refine ⟨Program.mirrors_callGraph loaded, ?_, fun before f o after split => ?_⟩
  · obtain ⟨nodes, edges, indexed⟩ := Program.recorded_recordCalls loaded (List.Subset.refl p.calls)
    rw [← Program.callGraph_edges] at edges
    refine ⟨nodes, edges, fun n => ⟨edges ▸ indexed.leaving n, edges ▸ indexed.entering n⟩,
      fun o => ?_⟩
    rw [indexed.byOp, edges]
    rfl
  · have subset : before ⊆ p.calls := split ▸ List.subset_append_left _ _
    have nodes := (Program.recorded_recordCalls loaded subset).nodes
    have here : (f, o) ∈ p.calls := split ▸ List.mem_append_right _ List.mem_cons_self
    refine ⟨nodes, fun h target => ?_⟩
    rw [nodes]
    exact Program.mem_functionIds_of_callee loaded (Program.mem_calls.mp here).2 target

/-- A function calls a later one twice, one through a value, itself and one that is nowhere
declared. -/
def dialledText : String :=
  "(module dialled
    (function \"f\" (params (k (ptr i8)))
      (block a (call _ void \"late\") (call _ void k) (invoke _ void \"f\" (k) b b))
      (block b (call _ void \"late\") (call _ void \"ext\") (ret)))
    (function \"late\" (params) (block a (ret))))"

set_option maxRecDepth 4000 in
/-- In `dialledText`, the functions are 1, 3 and the callee 12 that only a call names. -/
theorem callGraph_mirrors_dialled : ∃ p, Program.load "dialled" dialledText = .ok p ∧
    p.functionIds = [1, 3, 12] ∧
    p.callGraph.edges = [⟨1, 3, 5⟩, ⟨1, CallGraph.sink, 6⟩, ⟨1, 1, 7⟩, ⟨1, 3, 9⟩, ⟨1, 12, 10⟩] ∧
    p.callGraph.callSitesOf 3 = [5, 9] ∧ p.callGraph.Mirrors p ∧
    (p.recordCalls p.calls).Agrees p.callGraph ∧
    p.calls = [(1, 5), (1, 6), (1, 7), (1, 9)] ++ [(1, 10)] ∧
    12 ∈ (p.recordCalls [(1, 5), (1, 6), (1, 7), (1, 9)]).nodes := by
  obtain ⟨p, loaded, checked⟩ : ∃ p, Program.load "dialled" dialledText = .ok p ∧
      decide (p.functionIds = [1, 3, 12] ∧
        p.callGraph.edges = [⟨1, 3, 5⟩, ⟨1, CallGraph.sink, 6⟩, ⟨1, 1, 7⟩, ⟨1, 3, 9⟩, ⟨1, 12, 10⟩] ∧
        p.callGraph.callSitesOf 3 = [5, 9] ∧
        p.calls = [(1, 5), (1, 6), (1, 7), (1, 9)] ++ [(1, 10)] ∧
        (p.op 10).callee.function? = some 12) = true :=
    Program.exists_of_load rfl (by decide +kernel)
  obtain ⟨functions, edges, sites, calls, target⟩ := of_decide_eq_true checked
  obtain ⟨mirrors, agrees, before⟩ := callGraph_mirrors loaded
  exact ⟨p, loaded, functions, edges, sites, mirrors, agrees, calls,
    (before _ 1 10 [] calls).2 12 target⟩

end Relock
