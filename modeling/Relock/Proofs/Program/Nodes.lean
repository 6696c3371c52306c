import Relock.Program.Builder
import Relock.Proofs.Order

/-!
# Reading nodes back

What the node table holds after the two things a builder operation does to it: taking the next
number for a node, and changing a node in place. The four readers `function?`, `block?`, `op?` and
`value?` each see one kind of node, so a change of one kind is invisible to the other three. Later
modules state what a builder operation does through these equations and do not look at the table
again.
-/

namespace Relock.Program

variable (p : Program)

/-! ## The table -/

theorem node_push (n : Node) (id : Nat) :
    (p.push n).2.node id = if id = p.nodes.size then n else p.node id := by
  simp only [push, node, Array.getD_eq_getD_getElem?, Array.getElem?_push]
  split <;> rfl

/-- A change in place is seen at its own number only. Only numbers in the table change, and a change
of one kind of node leaves a vacant number vacant. -/
theorem node_modify (change : Node → Node) (vacant : change .vacant = .vacant) (i id : Nat) :
    ({ p with nodes := p.nodes.modify i change } : Program).node id =
      if id = i then change (p.node id) else p.node id := by
  simp only [node, Array.getD_eq_getD_getElem?, Array.getElem?_modify]
  by_cases same : id = i
  · subst same
    simp only [if_true]
    cases p.nodes[id]? with
    | none => exact vacant.symm
    | some n => rfl
  · rw [if_neg (fun h => same h.symm), if_neg same]

/-- A number past the end of the table is no node's. -/
theorem node_of_size_le {id : Nat} (h : p.nodes.size ≤ id) : p.node id = .vacant := by
  simp only [node, Array.getD_eq_getD_getElem?, Array.getElem?_eq_none h, Option.getD_none]

/-- A sum over the table, by the numbers of the nodes. -/
theorem foldl_nodes (weight : Node → Nat) :
    p.nodes.foldl (fun sum node => sum + weight node) 0 =
      total ((List.range p.nodes.size).map fun id => weight (p.node id)) := by
  have row : (List.range p.nodes.size).map (fun id => weight (p.node id)) =
      p.nodes.toList.map weight := by
    refine List.ext_getElem (by simp) fun i inRange _ => ?_
    have bound : i < p.nodes.size := by simpa using inRange
    simp only [List.getElem_map, List.getElem_range, Array.getElem_toList, node,
      Array.getD_eq_getD_getElem?, Array.getElem?_eq_getElem bound, Option.getD_some]
  rw [← Array.foldl_toList, foldl_add_total, row, Nat.zero_add]

/-! ## A node pushed -/

theorem function?_push (n : Node) (id : FunctionId) :
    (p.push n).2.function? id =
      if id = p.nodes.size then (match n with | .function f => some f | _ => none)
      else p.function? id := by
  simp only [function?, node_push]
  by_cases next : id = p.nodes.size
  · cases n <;> simp only [if_pos next]
  · simp only [if_neg next]

theorem block?_push (n : Node) (id : BlockId) :
    (p.push n).2.block? id =
      if id = p.nodes.size then (match n with | .block b => some b | _ => none)
      else p.block? id := by
  simp only [block?, node_push]
  by_cases next : id = p.nodes.size
  · cases n <;> simp only [if_pos next]
  · simp only [if_neg next]

theorem op?_push (n : Node) (id : OpId) :
    (p.push n).2.op? id =
      if id = p.nodes.size then (match n with | .operation o => some o | _ => none)
      else p.op? id := by
  simp only [op?, node_push]
  by_cases next : id = p.nodes.size
  · cases n <;> simp only [if_pos next]
  · simp only [if_neg next]

theorem value?_push (n : Node) (id : ValueId) :
    (p.push n).2.value? id =
      if id = p.nodes.size then (match n with | .value v => some v | _ => none)
      else p.value? id := by
  simp only [value?, node_push]
  by_cases next : id = p.nodes.size
  · cases n <;> simp only [if_pos next]
  · simp only [if_neg next]

/-! ## The next number is no node's -/

@[simp] theorem function?_size : p.function? p.nodes.size = none := by
  simp only [function?, node_of_size_le p (Nat.le_refl _)]

@[simp] theorem block?_size : p.block? p.nodes.size = none := by
  simp only [block?, node_of_size_le p (Nat.le_refl _)]

@[simp] theorem op?_size : p.op? p.nodes.size = none := by
  simp only [op?, node_of_size_le p (Nat.le_refl _)]

theorem lt_size_of_block? {b : BlockId} {block : Block} (h : p.block? b = some block) :
    b < p.nodes.size := by
  refine Nat.lt_of_not_le fun past => ?_
  simp only [block?, node_of_size_le p past, reduceCtorEq] at h

theorem lt_size_of_function? {f : FunctionId} {function : Function}
    (h : p.function? f = some function) : f < p.nodes.size := by
  refine Nat.lt_of_not_le fun past => ?_
  simp only [function?, node_of_size_le p past, reduceCtorEq] at h

theorem lt_size_of_op? {o : OpId} {op : Operation} (h : p.op? o = some op) : o < p.nodes.size := by
  refine Nat.lt_of_not_le fun past => ?_
  simp only [op?, node_of_size_le p past, reduceCtorEq] at h

theorem lt_size_of_value? {v : ValueId} {x : Value} (h : p.value? v = some x) :
    v < p.nodes.size := by
  refine Nat.lt_of_not_le fun past => ?_
  simp only [value?, node_of_size_le p past, reduceCtorEq] at h

theorem lt_size_of_body {f : FunctionId} (h : (p.function f).isDeclaration = false) :
    f < p.nodes.size := by
  refine Nat.lt_of_not_le fun past => ?_
  rw [Program.function, function?, node_of_size_le p past] at h
  cases h

/-! ## A node changed in place -/

theorem function?_modifyFunction (i : FunctionId) (change : Function → Function) (id : FunctionId) :
    (p.modifyFunction i change).function? id =
      if id = i then (p.function? id).map change else p.function? id := by
  simp only [function?, modifyFunction, node_modify]
  by_cases same : id = i
  · rw [if_pos same, if_pos same]
    cases p.node id <;> rfl
  · rw [if_neg same, if_neg same]

theorem block?_modifyBlock (i : BlockId) (change : Block → Block) (id : BlockId) :
    (p.modifyBlock i change).block? id =
      if id = i then (p.block? id).map change else p.block? id := by
  simp only [block?, modifyBlock, node_modify]
  by_cases same : id = i
  · rw [if_pos same, if_pos same]
    cases p.node id <;> rfl
  · rw [if_neg same, if_neg same]

theorem op?_modifyOp (i : OpId) (change : Operation → Operation) (id : OpId) :
    (p.modifyOp i change).op? id = if id = i then (p.op? id).map change else p.op? id := by
  simp only [op?, modifyOp, node_modify]
  by_cases same : id = i
  · rw [if_pos same, if_pos same]
    cases p.node id <;> rfl
  · rw [if_neg same, if_neg same]

@[simp] theorem block?_modifyFunction (i : FunctionId) (change : Function → Function)
    (id : BlockId) :
    (p.modifyFunction i change).block? id = p.block? id := by
  simp only [block?, modifyFunction, node_modify]
  by_cases same : id = i
  · rw [if_pos same]
    cases p.node id <;> rfl
  · rw [if_neg same]

@[simp] theorem op?_modifyFunction (i : FunctionId) (change : Function → Function) (id : OpId) :
    (p.modifyFunction i change).op? id = p.op? id := by
  simp only [op?, modifyFunction, node_modify]
  by_cases same : id = i
  · rw [if_pos same]
    cases p.node id <;> rfl
  · rw [if_neg same]

@[simp] theorem function?_modifyBlock (i : BlockId) (change : Block → Block) (id : FunctionId) :
    (p.modifyBlock i change).function? id = p.function? id := by
  simp only [function?, modifyBlock, node_modify]
  by_cases same : id = i
  · rw [if_pos same]
    cases p.node id <;> rfl
  · rw [if_neg same]

@[simp] theorem op?_modifyBlock (i : BlockId) (change : Block → Block) (id : OpId) :
    (p.modifyBlock i change).op? id = p.op? id := by
  simp only [op?, modifyBlock, node_modify]
  by_cases same : id = i
  · rw [if_pos same]
    cases p.node id <;> rfl
  · rw [if_neg same]

@[simp] theorem function?_modifyOp (i : OpId) (change : Operation → Operation) (id : FunctionId) :
    (p.modifyOp i change).function? id = p.function? id := by
  simp only [function?, modifyOp, node_modify]
  by_cases same : id = i
  · rw [if_pos same]
    cases p.node id <;> rfl
  · rw [if_neg same]

@[simp] theorem block?_modifyOp (i : OpId) (change : Operation → Operation) (id : BlockId) :
    (p.modifyOp i change).block? id = p.block? id := by
  simp only [block?, modifyOp, node_modify]
  by_cases same : id = i
  · rw [if_pos same]
    cases p.node id <;> rfl
  · rw [if_neg same]

@[simp] theorem function?_modifyValue (i : ValueId) (change : Value → Value) (id : FunctionId) :
    (p.modifyValue i change).function? id = p.function? id := by
  simp only [function?, modifyValue, node_modify]
  by_cases same : id = i
  · rw [if_pos same]
    cases p.node id <;> rfl
  · rw [if_neg same]

@[simp] theorem block?_modifyValue (i : ValueId) (change : Value → Value) (id : BlockId) :
    (p.modifyValue i change).block? id = p.block? id := by
  simp only [block?, modifyValue, node_modify]
  by_cases same : id = i
  · rw [if_pos same]
    cases p.node id <;> rfl
  · rw [if_neg same]

@[simp] theorem op?_modifyValue (i : ValueId) (change : Value → Value) (id : OpId) :
    (p.modifyValue i change).op? id = p.op? id := by
  simp only [op?, modifyValue, node_modify]
  by_cases same : id = i
  · rw [if_pos same]
    cases p.node id <;> rfl
  · rw [if_neg same]

theorem value?_modifyValue (i : ValueId) (change : Value → Value) (id : ValueId) :
    (p.modifyValue i change).value? id = if id = i then (p.value? id).map change else
    p.value? id := by
  simp only [value?, modifyValue, node_modify]
  by_cases same : id = i
  · rw [if_pos same, if_pos same]
    cases p.node id <;> rfl
  · rw [if_neg same, if_neg same]

@[simp] theorem value?_modifyFunction (i : FunctionId) (change : Function → Function)
    (id : ValueId) :
    (p.modifyFunction i change).value? id = p.value? id := by
  simp only [value?, modifyFunction, node_modify]
  by_cases same : id = i
  · rw [if_pos same]
    cases p.node id <;> rfl
  · rw [if_neg same]

@[simp] theorem value?_modifyOp (i : OpId) (change : Operation → Operation) (id : ValueId) :
    (p.modifyOp i change).value? id = p.value? id := by
  simp only [value?, modifyOp, node_modify]
  by_cases same : id = i
  · rw [if_pos same]
    cases p.node id <;> rfl
  · rw [if_neg same]

@[simp] theorem value?_modifyBlock (i : BlockId) (change : Block → Block) (id : ValueId) :
    (p.modifyBlock i change).value? id = p.value? id := by
  simp only [value?, modifyBlock, node_modify]
  by_cases same : id = i
  · rw [if_pos same]
    cases p.node id <;> rfl
  · rw [if_neg same]

/-! ## Values by name -/

/-- A value has a name, and belongs to a function of a name. -/
def Owned (owner name : String) (v : ValueId) : Prop :=
  (p.value v).name = name ∧ ∃ f, (p.value v).origin.owner? = some f ∧ (p.function f).name = owner

variable {p}

/-- By the names of its function and its own a value is found, that with the smallest number if
there are more. -/
theorem valueNamed?_eq_some_iff {owner name : String} {v : ValueId} :
    p.valueNamed? owner name = some v ↔
      v ∈ p.values ∧ p.Owned owner name v ∧ ∀ w ∈ p.values, p.Owned owner name w → v ≤ w := by
  have accepts (w : ValueId) : ((p.value w).name = name &&
      (p.value w).origin.owner?.any fun f => (p.function f).name = owner) = true ↔
        p.Owned owner name w := by
    simp only [Owned, Bool.and_eq_true, decide_eq_true_eq, Option.any_eq_true]
  unfold valueNamed? values
  rw [find?_idSet]
  simp only [accepts, mem_idSet]

theorem globalNamed?_eq_some_iff {name : String} {v : ValueId} : p.globalNamed? name = some v ↔
    v ∈ p.values ∧ ((p.value v).name = name ∧ (p.value v).origin = .global) ∧
      ∀ w ∈ p.values, (p.value w).name = name ∧ (p.value w).origin = .global → v ≤ w := by
  unfold globalNamed? values
  rw [find?_idSet]
  simp only [Bool.and_eq_true, decide_eq_true_eq, mem_idSet]

end Relock.Program
