import Relock.Proofs.Program.Nodes

/-!
# The shape of a program

Functions hold blocks and blocks hold operations; each of the two views of such an edge (the list of
the holder, the back reference of the held) follows from the other, and nothing is held twice. The
control flow stays inside a function. `Program.Shape` says so, and this module shows that the
builder operations keep it.

Most builder operations do not touch these edges at all. They are collected under `SameShape`, which
composes; only a new block, a new operation in a block and a new edge of the control flow are
treated one by one.
-/

namespace Relock.Program

/-- The functions known by name are functions of the table, each known by one name. -/
structure Registered (p : Program) : Prop where
  known : ∀ f ∈ p.functions.entries, (p.function? f).isSome
  distinct : p.functions.entries.Nodup

/-- The holding edges of functions, blocks and operations, and the control flow. -/
structure Shape (p : Program) : Prop where
  registered : p.Registered
  block_of_mem : ∀ {f b}, b ∈ (p.function f).blocks → ∃ block, p.block? b = some block ∧
    block.function = f
  mem_of_block : ∀ {b block}, p.block? b = some block → b ∈ (p.function block.function).blocks
  blocks_nodup : ∀ f, (p.function f).blocks.Nodup
  op_of_mem : ∀ {b o}, o ∈ (p.block b).ops → (p.op o).block = some b
  mem_of_op : ∀ {b o}, (p.op o).block = some b → o ∈ (p.block b).ops
  ops_nodup : ∀ b, (p.block b).ops.Nodup
  successor_mem : ∀ {b s}, s ∈ (p.block b).successors → s ∈ (p.function (p.block b).function).blocks
  successors_nodup : ∀ b, (p.block b).successors.Nodup

/-! ## Reading a known node -/

theorem block_eq {p : Program} {b : BlockId} {block : Block} (h : p.block? b = some block) :
    p.block b = block := by
  simp only [Program.block, h, Option.getD_some]

theorem op_eq {p : Program} {o : OpId} {op : Operation} (h : p.op? o = some op) : p.op o = op := by
  simp only [Program.op, h, Option.getD_some]

theorem function_eq {p : Program} {f : FunctionId} {fn : Function} (h : p.function? f = some fn) :
    p.function f = fn := by
  simp only [Program.function, h, Option.getD_some]

theorem value_eq {p : Program} {v : ValueId} {x : Value} (h : p.value? v = some x) :
    p.value v = x := by
  simp only [Program.value, h, Option.getD_some]

/-- A number that no block has reads as a block without operations and successors. -/
theorem block_eq_default {p : Program} {b : BlockId} (h : p.block? b = none) :
    p.block b = default := by
  simp only [Program.block, h, Option.getD_none]

theorem block?_of_mem_ops {p : Program} {b : BlockId} {o : OpId} (h : o ∈ (p.block b).ops) :
    ∃ block, p.block? b = some block := by
  cases hb : p.block? b with
  | none => rw [block_eq_default hb] at h; exact absurd h List.not_mem_nil
  | some block => exact ⟨block, rfl⟩

theorem block?_of_mem_successors {p : Program} {b s : BlockId} (h : s ∈ (p.block b).successors) :
    ∃ block, p.block? b = some block := by
  cases hb : p.block? b with
  | none => rw [block_eq_default hb] at h; exact absurd h List.not_mem_nil
  | some block => exact ⟨block, rfl⟩

/-- An operation that a block holds is an operation of the table. -/
theorem Shape.op?_of_mem {p : Program} (shape : p.Shape) {b : BlockId} {o : OpId}
    (h : o ∈ (p.block b).ops) :
    ∃ op, p.op? o = some op := by
  have home := shape.op_of_mem h
  cases known : p.op? o with
  | none => rw [Program.op, known] at home; cases home
  | some op => exact ⟨op, rfl⟩

/-- An operation in a block stands in the block's function. -/
theorem functionOf?_of_block {p : Program} {o : OpId} {b : BlockId} (h : (p.op o).block = some b) :
    p.functionOf? o = some (p.block b).function := by
  rw [functionOf?, h, Option.map_some]

namespace Shape

variable {p : Program} (shape : p.Shape)
include shape

/-- The block of an operation stands in the function that it names. -/
theorem mem_blocks_of_op {o : OpId} {b : BlockId} (h : (p.op o).block = some b) :
    b ∈ (p.function (p.block b).function).blocks := by
  obtain ⟨block, hb⟩ := block?_of_mem_ops (shape.mem_of_op h)
  rw [block_eq hb]
  exact shape.mem_of_block hb

theorem function_of_mem {f : FunctionId} {b : BlockId} (h : b ∈ (p.function f).blocks) :
    (p.block b).function = f := by
  obtain ⟨block, hb, hf⟩ := shape.block_of_mem h
  rw [block_eq hb, hf]

/-- A successor of a block of a function is a block of the function. -/
theorem successor_mem_blocks {f : FunctionId} {b s : BlockId} (h : b ∈ (p.function f).blocks)
    (hs : s ∈ (p.block b).successors) : s ∈ (p.function f).blocks := by
  have inside := shape.successor_mem hs
  rwa [shape.function_of_mem h] at inside

/-- An operation of a block of a function stands in the function. -/
theorem functionOf?_of_mem {f : FunctionId} {b : BlockId} {o : OpId}
    (h : b ∈ (p.function f).blocks) (ho : o ∈ (p.block b).ops) : p.functionOf? o = some f := by
  simp only [functionOf?, shape.op_of_mem ho, Option.map_some, shape.function_of_mem h]

end Shape

/-! ## Growth -/

/-- Nodes stay what they are, and operands are only added. -/
structure Grows (p q : Program) : Prop where
  function : ∀ {f}, (p.function? f).isSome → (q.function? f).isSome
  block : ∀ {b}, (p.block? b).isSome → (q.block? b).isSome
  op : ∀ {o}, (p.op? o).isSome → (q.op? o).isSome
  kind : ∀ {o}, (p.op? o).isSome → (q.op o).kind = (p.op o).kind
  operands : ∀ o, (p.op o).operands.length ≤ (q.op o).operands.length

theorem Grows.refl (p : Program) : Grows p p :=
  ⟨id, id, id, fun _ => rfl, fun _ => Nat.le_refl _⟩

theorem Grows.trans {p q r : Program} (pq : Grows p q) (qr : Grows q r) : Grows p r where
  function h := qr.function (pq.function h)
  block h := qr.block (pq.block h)
  op h := qr.op (pq.op h)
  kind h := (qr.kind (pq.op h)).trans (pq.kind h)
  operands o := Nat.le_trans (pq.operands o) (qr.operands o)

/-- The functions known by name stay registered when the names do not change. -/
theorem Registered.of_grows {p q : Program} (known : p.Registered) (grows : Grows p q)
    (names : q.functions = p.functions) : q.Registered where
  known f hf := grows.function (known.known f (names ▸ hf))
  distinct := names ▸ known.distinct

/-! ## Operations that keep the shape -/

/-- No holding edge, no edge of the control flow and no kind of an operation differs. -/
structure SameShape (p q : Program) : Prop extends Grows p q where
  registered : p.Registered → q.Registered
  blocks : ∀ f, (q.function f).blocks = (p.function f).blocks
  sameBlock : ∀ b, q.block? b = p.block? b
  opBlock : ∀ o, (q.op o).block = (p.op o).block
  opKind : ∀ o, (q.op o).kind = (p.op o).kind

theorem SameShape.refl (p : Program) : SameShape p p :=
  ⟨Grows.refl p, id, fun _ => rfl, fun _ => rfl, fun _ => rfl, fun _ => rfl⟩

theorem SameShape.trans {p q r : Program} (pq : SameShape p q) (qr : SameShape q r) :
    SameShape p r where
  toGrows := pq.toGrows.trans qr.toGrows
  registered h := qr.registered (pq.registered h)
  blocks f := (qr.blocks f).trans (pq.blocks f)
  sameBlock b := (qr.sameBlock b).trans (pq.sameBlock b)
  opBlock o := (qr.opBlock o).trans (pq.opBlock o)
  opKind o := (qr.opKind o).trans (pq.opKind o)

/-- What each member of a row keeps, the whole row keeps. -/
theorem SameShape.foldl {α : Type} {act : Program → α → Program}
    (one : ∀ p a, SameShape p (act p a)) (row : List α) (p : Program) :
    SameShape p (row.foldl act p) := by
  induction row generalizing p with
  | nil => exact SameShape.refl p
  | cons a row ih => exact (one p a).trans (ih (act p a))

/-- A program of the same shape has a shape too. -/
theorem Shape.of_same {p q : Program} (shape : p.Shape) (same : SameShape p q) : q.Shape := by
  have readBlock (b : BlockId) : q.block b = p.block b := by
    simp only [Program.block, same.sameBlock]
  refine ⟨same.registered shape.registered, ?_, ?_, ?_, ?_, ?_, ?_, ?_, ?_⟩
  · intro f b h
    rw [same.blocks] at h
    rw [same.sameBlock]
    exact shape.block_of_mem h
  · intro b block h
    rw [same.sameBlock] at h
    rw [same.blocks]
    exact shape.mem_of_block h
  · intro f
    rw [same.blocks]
    exact shape.blocks_nodup f
  · intro b o h
    rw [readBlock] at h
    rw [same.opBlock]
    exact shape.op_of_mem h
  · intro b o h
    rw [same.opBlock] at h
    rw [readBlock]
    exact shape.mem_of_op h
  · intro b
    rw [readBlock]
    exact shape.ops_nodup b
  · intro b s h
    rw [readBlock] at h ⊢
    rw [same.blocks]
    exact shape.successor_mem h
  · intro b
    rw [readBlock]
    exact shape.successors_nodup b

end Relock.Program
