import Relock.Proofs.Program.Builder

/-!
# What building leaves alone

A builder operation adds nodes and changes some that are there. Every change leaves a part of the
node as it was made (`Node.identity`): a function its name, a block its label and function, an
operation its kind and block, a value all but its uses. `Keeps` says so of two programs, and names
the numbers at which more may change; at the others a node differs by the uses of a value at most.
-/

namespace Relock

namespace Node

/-- The part of a node that is there from its making on. -/
def identity : Node → Node
  | .vacant => .vacant
  | .function f => .function { name := f.name, params := [], blocks := [], returns := .void }
  | .block b => .block { b with ops := [], successors := [], predecessors := [] }
  | .operation o =>
    .operation { kind := o.kind, operands := [], result := none, block := o.block,
                 callee := .absent, targets := [], indices := [], location := none }
  | .value v => .value { v with uses := [] }

/-- A node apart from the uses of a value. -/
def settled : Node → Node
  | .value v => .value { v with uses := [] }
  | n => n

theorem of_identity_value {n : Node} {x : Value} (h : n.identity = (Node.value x).identity) :
    ∃ uses, n = .value { x with uses := uses } := by
  cases n with
  | value y =>
    obtain ⟨name, type, origin, uses⟩ := y
    cases x
    simp only [identity, Node.value.injEq, Value.mk.injEq, and_true] at h
    obtain ⟨rfl, rfl, rfl⟩ := h
    exact ⟨uses, rfl⟩
  | _ => cases h

theorem of_identity_operation {n : Node} {o : Operation}
    (h : n.identity = (Node.operation o).identity) :
    ∃ op, n = .operation op ∧ op.kind = o.kind ∧ op.block = o.block := by
  cases n with
  | operation op =>
    simp only [identity, Node.operation.injEq, Operation.mk.injEq, true_and, and_true] at h
    exact ⟨op, rfl, h⟩
  | _ => cases h

theorem of_identity_block {n : Node} {b : Block} (h : n.identity = (Node.block b).identity) :
    ∃ block, n = .block block ∧ block.name = b.name ∧ block.function = b.function := by
  cases n with
  | block block =>
    simp only [identity, Node.block.injEq, Block.mk.injEq, and_true] at h
    exact ⟨block, rfl, h⟩
  | _ => cases h

theorem of_identity_function
    {n : Node} {f : Function} (h : n.identity = (Node.function f).identity) :
    ∃ fn, n = .function fn ∧ fn.name = f.name := by
  cases n with
  | function fn =>
    simp only [identity, Node.function.injEq, Function.mk.injEq, and_true] at h
    exact ⟨fn, rfl, h⟩
  | _ => cases h

/-- A node other than a value is settled. -/
theorem of_settled {n m : Node} (h : n.settled = m.settled) (other : ∀ x, m ≠ .value x) :
    n = m := by
  cases m with
  | value x => exact absurd rfl (other x)
  | _ =>
    cases n with
    | value y => cases h
    | _ => exact h

end Node

namespace Program

/-- What `p` has, `q` has too; nodes differ by the uses of values at most, except at some
numbers. -/
structure Keeps (changing : Nat → Prop) (p q : Program) : Prop where
  size : p.nodes.size ≤ q.nodes.size
  identity : ∀ {i}, i < p.nodes.size → (q.node i).identity = (p.node i).identity
  settled : ∀ {i}, i < p.nodes.size → ¬ changing i → (q.node i).settled = (p.node i).settled
  functions : ∀ {name f}, p.functions.get? name = some f → q.functions.get? name = some f
  globals : ∀ {name}, (p.globals.get? name).isSome → (q.globals.get? name).isSome

variable {p q r : Program} {changing : Nat → Prop}

theorem Keeps.refl (changing : Nat → Prop) (p : Program) : Keeps changing p p :=
  ⟨Nat.le_refl _, fun _ => rfl, fun _ _ => rfl, id, id⟩

theorem Keeps.trans (pq : Keeps changing p q) (qr : Keeps changing q r) : Keeps changing p r where
  size := Nat.le_trans pq.size qr.size
  identity h := (qr.identity (Nat.lt_of_lt_of_le h pq.size)).trans (pq.identity h)
  settled h kept := (qr.settled (Nat.lt_of_lt_of_le h pq.size) kept).trans (pq.settled h kept)
  functions h := qr.functions (pq.functions h)
  globals h := qr.globals (pq.globals h)

theorem Keeps.weaken {more : Nat → Prop} (keeps : Keeps changing p q)
    (sub : ∀ {i}, changing i → more i) :
    Keeps more p q where
  size := keeps.size
  identity := keeps.identity
  settled h kept := keeps.settled h fun c => kept (sub c)
  functions := keeps.functions
  globals := keeps.globals

/-! ## Nodes that are kept -/

theorem value?_eq_some {v : ValueId} {x : Value} : p.value? v = some x ↔ p.node v = .value x := by
  unfold value?
  cases p.node v <;> simp

theorem op?_eq_some {o : OpId} {op : Operation} : p.op? o = some op ↔ p.node o = .operation op := by
  unfold op?
  cases p.node o <;> simp

theorem block?_eq_some {b : BlockId} {block : Block} : p.block? b = some block ↔
    p.node b = .block block := by
  unfold block?
  cases p.node b <;> simp

theorem function?_eq_some {f : FunctionId} {fn : Function} : p.function? f = some fn ↔
    p.node f = .function fn := by
  unfold function?
  cases p.node f <;> simp

theorem lt_size_of_node {i : Nat} {n : Node} (h : p.node i = n) (taken : n ≠ .vacant) :
    i < p.nodes.size :=
  Nat.lt_of_not_le fun past => taken (h.symm.trans (node_of_size_le p past))

/-! A number is one node's. -/

theorem ne_of_op?_of_block? {o : OpId} {op : Operation} {b : BlockId} {block : Block}
    (ho : p.op? o = some op) (hb : p.block? b = some block) : o ≠ b := by
  rintro rfl
  cases (op?_eq_some.mp ho).symm.trans (block?_eq_some.mp hb)

theorem ne_of_op?_of_function?
    {o : OpId} {op : Operation} {f : FunctionId} {fn : Function} (ho : p.op? o = some op)
    (hf : p.function? f = some fn) : o ≠ f := by
  rintro rfl
  cases (op?_eq_some.mp ho).symm.trans (function?_eq_some.mp hf)

theorem ne_of_block?_of_function? {b : BlockId} {block : Block} {f : FunctionId} {fn : Function}
    (hb : p.block? b = some block) (hf : p.function? f = some fn) : b ≠ f := by
  rintro rfl
  cases (block?_eq_some.mp hb).symm.trans (function?_eq_some.mp hf)

/-- Where one node and those after the first `size` may change, another of the first does not. -/
theorem not_eq_or_le {i j size : Nat} (less : i < size) (other : i ≠ j) : ¬ (i = j ∨ size ≤ i) :=
  fun h => h.elim other (Nat.not_le_of_lt less)

section Read

variable (keeps : Keeps changing p q)
include keeps

theorem Keeps.value? {v : ValueId} {x : Value} (h : p.value? v = some x) :
    ∃ uses, q.value? v = some { x with uses := uses } := by
  have node := value?_eq_some.mp h
  have identity := keeps.identity (lt_size_of_value? p h)
  obtain ⟨uses, found⟩ := Node.of_identity_value (node ▸ identity)
  exact ⟨uses, value?_eq_some.mpr found⟩

theorem Keeps.op? {o : OpId} {op : Operation} (h : p.op? o = some op) :
    ∃ op', q.op? o = some op' ∧ op'.kind = op.kind ∧ op'.block = op.block := by
  have node := op?_eq_some.mp h
  have identity := keeps.identity (lt_size_of_op? p h)
  obtain ⟨op', found, same⟩ := Node.of_identity_operation (node ▸ identity)
  exact ⟨op', op?_eq_some.mpr found, same⟩

theorem Keeps.block? {b : BlockId} {block : Block} (h : p.block? b = some block) :
    ∃ block', q.block? b = some block' ∧ block'.name = block.name ∧
    block'.function = block.function := by
  have node := block?_eq_some.mp h
  have identity := keeps.identity (lt_size_of_block? p h)
  obtain ⟨block', found, same⟩ := Node.of_identity_block (node ▸ identity)
  exact ⟨block', block?_eq_some.mpr found, same⟩

theorem Keeps.function? {f : FunctionId} {fn : Function} (h : p.function? f = some fn) :
    ∃ fn', q.function? f = some fn' ∧ fn'.name = fn.name := by
  have node := function?_eq_some.mp h
  have identity := keeps.identity (lt_size_of_function? p h)
  obtain ⟨fn', found, same⟩ := Node.of_identity_function (node ▸ identity)
  exact ⟨fn', function?_eq_some.mpr found, same⟩

/-- A node other than a value that may not change is the same. -/
theorem Keeps.node {i : Nat} (kept : ¬ changing i) {n : Node} (h : p.node i = n)
    (taken : n ≠ .vacant) (other : ∀ x, n ≠ .value x) : q.node i = n := by
  subst h
  exact Node.of_settled (keeps.settled (lt_size_of_node rfl taken) kept) other

theorem Keeps.sameOp {o : OpId} {op : Operation} (kept : ¬ changing o) (h : p.op? o = some op) :
    q.op? o = some op :=
  op?_eq_some.mpr (keeps.node kept (op?_eq_some.mp h) nofun nofun)

theorem Keeps.sameBlock {b : BlockId} {block : Block} (kept : ¬ changing b)
    (h : p.block? b = some block) :
    q.block? b = some block :=
  block?_eq_some.mpr (keeps.node kept (block?_eq_some.mp h) nofun nofun)

theorem Keeps.sameFunction {f : FunctionId} {fn : Function} (kept : ¬ changing f)
    (h : p.function? f = some fn) :
    q.function? f = some fn :=
  function?_eq_some.mpr (keeps.node kept (function?_eq_some.mp h) nofun nofun)

end Read

/-! ## Changes of the table -/

theorem keeps_push (changing : Nat → Prop) (p : Program) (n : Node) :
    Keeps changing p (p.push n).2 := by
  have older {i : Nat} (h : i < p.nodes.size) : (p.push n).2.node i = p.node i := by
    rw [node_push, if_neg (Nat.ne_of_lt h)]
  refine ⟨?_, fun h => by rw [older h], fun h _ => by rw [older h], id, id⟩
  simp only [push, Array.size_push, Nat.le_succ]

theorem keeps_modify {i : Nat} {change : Node → Node}
    (identity : ∀ n, (change n).identity = n.identity)
    (settled : changing i ∨ ∀ n, (change n).settled = n.settled) :
    Keeps changing p { p with nodes := p.nodes.modify i change } := by
  have vacant : change .vacant = .vacant := by
    have same := identity .vacant
    cases made : change .vacant with
    | vacant => rfl
    | _ => rw [made] at same; cases same
  refine ⟨Nat.le_of_eq (Array.size_modify ..).symm, fun {j} _ => ?_, fun {j} _ kept => ?_, id, id⟩
  · rw [node_modify p change vacant]
    split
    next => exact identity _
    next => rfl
  · rw [node_modify p change vacant]
    split
    next here =>
      rcases settled with changed | same
      · exact absurd (here ▸ changed) kept
      · exact same _
    next => rfl

theorem keeps_modifyFunction {f : FunctionId} {change : Function → Function} (here : changing f)
    (name : ∀ fn, (change fn).name = fn.name) : Keeps changing p (p.modifyFunction f change) := by
  refine keeps_modify (fun n => ?_) (.inl here)
  cases n with
  | function fn => simp only [Node.identity, name]
  | _ => rfl

theorem keeps_modifyBlock {b : BlockId} {change : Block → Block} (here : changing b)
    (made : ∀ block, (change block).name = block.name ∧ (change block).function = block.function) :
    Keeps changing p (p.modifyBlock b change) := by
  refine keeps_modify (fun n => ?_) (.inl here)
  cases n with
  | block block => simp only [Node.identity, made block]
  | _ => rfl

theorem keeps_modifyOp {o : OpId} {change : Operation → Operation} (here : changing o)
    (made : ∀ op, (change op).kind = op.kind ∧ (change op).block = op.block) :
    Keeps changing p (p.modifyOp o change) := by
  refine keeps_modify (fun n => ?_) (.inl here)
  cases n with
  | operation op => simp only [Node.identity, made op]
  | _ => rfl

/-- A value may get uses at any number. -/
theorem keeps_modifyValue {v : ValueId} {change : Value → Value}
    (made : ∀ x, (change x).name = x.name ∧ (change x).type = x.type ∧
      (change x).origin = x.origin) :
    Keeps changing p (p.modifyValue v change) := by
  refine keeps_modify (fun n => ?_) (.inr fun n => ?_)
  · cases n with
    | value x => simp only [Node.identity, made x]
    | _ => rfl
  · cases n with
    | value x => simp only [Node.settled, made x]
    | _ => rfl

end Program
end Relock
