import Relock.Proofs.Keyed
import Relock.Proofs.Program.Shape
import Relock.Program.OfSource

/-!
# The builder keeps the shape

First the operations that touch no holding edge: values, names, operands, signatures. Then the three
that do: a block at the end of a function, an operation at the end of a block, and an edge of the
control flow between two blocks of one function.
-/

namespace Relock.Program

variable {p : Program}

/-! ## Values and names -/

/-- Nothing that a program holds differs but its values and names. -/
theorem SameShape.of_views {q : Program} (function : ∀ f, q.function? f = p.function? f)
    (block : ∀ b, q.block? b = p.block? b) (op : ∀ o, q.op? o = p.op? o)
    (names : q.functions = p.functions) : SameShape p q := by
  have readOp (o : OpId) : q.op o = p.op o := by simp only [Program.op, op]
  have grows : Grows p q :=
    { function := fun h => function _ ▸ h
      block := fun h => block _ ▸ h
      op := fun h => op _ ▸ h
      kind := fun _ => by rw [readOp]
      operands := fun o => Nat.le_of_eq (by rw [readOp]) }
  refine ⟨grows, fun known => known.of_grows grows names, ?_, block, ?_, ?_⟩
  · intro f
    simp only [Program.function, function]
  · intro o
    rw [readOp]
  · intro o
    rw [readOp]

/-- The edges are read off the table of nodes alone. -/
theorem SameShape.of_nodes {q r : Program} (same : SameShape p q) (nodes : r.nodes = q.nodes)
    (registered : p.Registered → r.Registered) : SameShape p r := by
  have node (id : Nat) : r.node id = q.node id := by simp only [Program.node, nodes]
  have function (f : FunctionId) : r.function? f = q.function? f := by simp only [function?, node]
  have block (b : BlockId) : r.block? b = q.block? b := by simp only [block?, node]
  have op (o : OpId) : r.op? o = q.op? o := by simp only [op?, node]
  have readOp (o : OpId) : r.op o = q.op o := by simp only [Program.op, op]
  refine ⟨⟨?_, ?_, ?_, ?_, ?_⟩, registered, ?_, ?_, ?_, ?_⟩
  · intro f h
    rw [function]
    exact same.function h
  · intro b h
    rw [block]
    exact same.block h
  · intro o h
    rw [op]
    exact same.op h
  · intro o h
    rw [readOp]
    exact same.kind h
  · intro o
    rw [readOp]
    exact same.operands o
  · intro f
    rw [← same.blocks f]
    simp only [Program.function, function]
  · intro b
    rw [block, same.sameBlock]
  · intro o
    rw [readOp, same.opBlock]
  · intro o
    rw [readOp, same.opKind]

theorem sameShape_pushValue (p : Program) (v : Value) : SameShape p (p.push (.value v)).2 := by
  refine SameShape.of_views ?_ ?_ ?_ rfl
  · intro f
    rw [function?_push]
    split
    next h => rw [h, function?_size]
    next => rfl
  · intro b
    rw [block?_push]
    split
    next h => rw [h, block?_size]
    next => rfl
  · intro o
    rw [op?_push]
    split
    next h => rw [h, op?_size]
    next => rfl

theorem sameShape_modifyValue (p : Program) (v : ValueId) (change : Value → Value) :
    SameShape p (p.modifyValue v change) :=
  SameShape.of_views (function?_modifyValue p v change) (block?_modifyValue p v change)
    (op?_modifyValue p v change) rfl

theorem sameShape_setStruct (p : Program) (name : String) (fields : List Ty) :
    SameShape p (p.setStruct name fields) :=
  SameShape.of_views (fun _ => rfl) (fun _ => rfl) (fun _ => rfl) rfl

theorem sameShape_addGlobal (p : Program) (name : String) (type : Ty) :
    SameShape p (p.addGlobal name type).2 :=
  (sameShape_pushValue p _).trans
    (SameShape.of_views (fun _ => rfl) (fun _ => rfl) (fun _ => rfl) rfl)

theorem sameShape_addConstant (p : Program) (n : Int) (type : Ty) :
    SameShape p (p.addConstant n type).2 :=
  sameShape_pushValue p _

theorem sameShape_addFunctionRef (p : Program) (f : FunctionId) :
    SameShape p (p.addFunctionRef f).2 :=
  sameShape_pushValue p _

/-! ## Functions and their signatures -/

/-- A change of a function that leaves its blocks alone. -/
theorem sameShape_modifyFunction (p : Program) (f : FunctionId) {change : Function → Function}
    (blocks : ∀ fn, (change fn).blocks = fn.blocks) : SameShape p (p.modifyFunction f change) := by
  have isSome (g : FunctionId) :
      ((p.modifyFunction f change).function? g).isSome = (p.function? g).isSome := by
    rw [function?_modifyFunction]
    split <;> simp only [Option.isSome_map]
  have readOp (o : OpId) : (p.modifyFunction f change).op o = p.op o := by
    simp only [Program.op, op?_modifyFunction]
  have grows : Grows p (p.modifyFunction f change) :=
    { function := fun h => (isSome _).trans h
      block := fun h => by rwa [block?_modifyFunction]
      op := fun h => by rwa [op?_modifyFunction]
      kind := fun _ => by rw [readOp]
      operands := fun o => Nat.le_of_eq (by rw [readOp]) }
  refine ⟨grows, fun known => known.of_grows grows rfl, ?_,
    block?_modifyFunction p f change, ?_, ?_⟩
  · intro g
    simp only [Program.function, function?_modifyFunction]
    split
    next =>
      cases p.function? g with
      | none => rfl
      | some fn => exact blocks fn
    next => rfl
  · intro o
    rw [readOp]
  · intro o
    rw [readOp]

theorem sameShape_addParam (p : Program) (f : FunctionId) (name : String) (type : Ty) :
    SameShape p (p.addParam f name type).2 :=
  (sameShape_pushValue p _).trans (sameShape_modifyFunction _ f fun _ => rfl)

/-- A function without blocks holds nothing. -/
theorem sameShape_pushFunction (p : Program) (fn : Function) (empty : fn.blocks = []) :
    SameShape p (p.push (.function fn)).2 := by
  have readOp (o : OpId) : (p.push (.function fn)).2.op? o = p.op? o := by
    rw [op?_push]
    split
    next h => rw [h, op?_size]
    next => rfl
  have readBlock (b : BlockId) : (p.push (.function fn)).2.block? b = p.block? b := by
    rw [block?_push]
    split
    next h => rw [h, block?_size]
    next => rfl
  have grows : Grows p (p.push (.function fn)).2 :=
    { function := by
        intro f h
        rw [function?_push]
        split
        next => rfl
        next => exact h
      block := fun h => by rwa [readBlock]
      op := fun h => by rwa [readOp]
      kind := fun _ => by simp only [Program.op, readOp]
      operands := fun o => Nat.le_of_eq (by simp only [Program.op, readOp]) }
  refine ⟨grows, fun known => known.of_grows grows rfl, ?_, readBlock, ?_, ?_⟩
  · intro f
    simp only [Program.function, function?_push]
    split
    next h => rw [h, function?_size]; exact empty
    next => rfl
  · intro o
    simp only [Program.op, readOp]
  · intro o
    simp only [Program.op, readOp]

/-- A new name is put at the end of a row. -/
theorem entries_set_of_get?_none {row : Keyed String FunctionId} {name : String} {f : FunctionId}
    (absent : row.get? name = none) : (row.set name f).entries = row.entries ++ [f] := by
  rw [Keyed.set_of_get?_eq_none absent, Keyed.entries, List.map_append]
  rfl

/-- A function that is mentioned for the first time has no blocks, so that nothing is held anew. -/
theorem sameShape_addFunction (p : Program) (name : String) :
    SameShape p (p.addFunction name).2 := by
  cases found : p.functions.get? name with
  | some f =>
    simp only [addFunction, found]
    exact SameShape.refl p
  | none =>
    let fn : Function := { name := name, params := [], blocks := [], returns := .void }
    have made : (p.addFunction name).2 =
        { (p.push (.function fn)).2 with functions := p.functions.set name p.nodes.size } := by
      simp only [addFunction, found, fn]
      rfl
    have pushed := sameShape_pushFunction p fn rfl
    have entries := entries_set_of_get?_none (f := p.nodes.size) found
    rw [made]
    refine pushed.of_nodes rfl fun registered => ?_
    refine ⟨?_, ?_⟩
    · intro f hf
      rcases List.mem_append.mp (entries ▸ hf) with old | new
      · exact pushed.function (registered.known f old)
      · have here : (p.push (.function fn)).2.function? p.nodes.size = some fn := by
          rw [function?_push, if_pos rfl]
        rw [List.mem_singleton.mp new]
        exact Option.isSome_iff_exists.mpr ⟨fn, here⟩
    · change (p.functions.set name p.nodes.size).entries.Nodup
      rw [entries]
      refine List.nodup_append.mpr ⟨registered.distinct, by simp, ?_⟩
      intro f hf g hg same
      have known := registered.known f hf
      rw [same, List.mem_singleton.mp hg, function?_size] at known
      cases known

/-! ## Operands -/

/-- A change of an operation that leaves its block and kind alone and takes no operand away. -/
theorem sameShape_modifyOp (p : Program) (o : OpId) {change : Operation → Operation}
    (block : ∀ op, (change op).block = op.block) (kind : ∀ op, (change op).kind = op.kind)
    (operands : ∀ op, op.operands.length ≤ (change op).operands.length) :
    SameShape p (p.modifyOp o change) := by
  have readOp (i : OpId) : (p.modifyOp o change).op i = p.op i ∨
      (p.modifyOp o change).op i = change (p.op i) := by
    simp only [Program.op, op?_modifyOp]
    split
    next =>
      cases p.op? i with
      | none => exact .inl rfl
      | some op => exact .inr rfl
    next => exact .inl rfl
  have grows : Grows p (p.modifyOp o change) :=
    { function := fun h => by rwa [function?_modifyOp]
      block := fun h => by rwa [block?_modifyOp]
      op := by
        intro i h
        rw [op?_modifyOp]
        split
        next => rwa [Option.isSome_map]
        next => exact h
      kind := by
        intro i _
        rcases readOp i with same | changed
        · rw [same]
        · rw [changed, kind]
      operands := by
        intro i
        rcases readOp i with same | changed
        · exact Nat.le_of_eq (by rw [same])
        · rw [changed]; exact operands _ }
  refine ⟨grows, fun known => known.of_grows grows rfl, ?_, block?_modifyOp p o change, ?_, ?_⟩
  · intro f
    simp only [Program.function, function?_modifyOp]
  · intro i
    rcases readOp i with same | changed
    · rw [same]
    · rw [changed, block]
  · intro i
    rcases readOp i with same | changed
    · rw [same]
    · rw [changed, kind]

theorem sameShape_attachOne (p : Program) (o : OpId) (v : ValueId) :
    SameShape p (p.attachOne o v) := by
  have extended : SameShape p (p.modifyOp o fun op =>
      { op with operands := op.operands ++ [v] }) := by
    refine sameShape_modifyOp p o (fun _ => rfl) (fun _ => rfl) fun op => ?_
    simp only [List.length_append, Nat.le_add_right]
  exact extended.trans (sameShape_modifyValue _ v _)

theorem sameShape_attach (p : Program) (o : OpId) (operands : List ValueId) :
    SameShape p (p.attach o operands) :=
  SameShape.foldl (fun p v => sameShape_attachOne p o v) operands p

/-! ## A block at the end of a function -/

/-- A block as it is added. -/
def emptyBlock (f : FunctionId) (label : String) : Block :=
  { name := label, function := f, ops := [], successors := [], predecessors := [] }

theorem addBlock_eq (p : Program) (f : FunctionId) (label : String) :
    (p.addBlock f label).2 = (p.push (.block (emptyBlock f label))).2.modifyFunction f fun fn =>
      { fn with blocks := fn.blocks ++ [p.nodes.size] } := rfl

theorem function?_addBlock (p : Program) (f : FunctionId) (label : String) (g : FunctionId) :
    (p.addBlock f label).2.function? g = if g = f
      then (p.function? g).map fun fn => { fn with blocks := fn.blocks ++ [p.nodes.size] }
      else p.function? g := by
  have old : (p.push (.block (emptyBlock f label))).2.function? g = p.function? g := by
    rw [function?_push]
    split
    next h => rw [h, function?_size]
    next => rfl
  rw [addBlock_eq, function?_modifyFunction, old]

theorem block?_addBlock (p : Program) (f : FunctionId) (label : String) (b : BlockId) :
    (p.addBlock f label).2.block? b = if b = p.nodes.size
      then some (emptyBlock f label) else p.block? b := by
  rw [addBlock_eq, block?_modifyFunction, block?_push]

theorem op?_addBlock (p : Program) (f : FunctionId) (label : String) (o : OpId) :
    (p.addBlock f label).2.op? o = p.op? o := by
  rw [addBlock_eq, op?_modifyFunction, op?_push]
  split
  next h => rw [h, op?_size]
  next => rfl

theorem grows_addBlock (p : Program) (f : FunctionId) (label : String) :
    Grows p (p.addBlock f label).2 where
  function h := by
    rw [function?_addBlock]
    split
    next => rwa [Option.isSome_map]
    next => exact h
  block h := by
    rw [block?_addBlock]
    split
    next => rfl
    next => exact h
  op h := by rwa [op?_addBlock]
  kind _ := by simp only [Program.op, op?_addBlock]
  operands o := Nat.le_of_eq (by simp only [Program.op, op?_addBlock])

/-- The new block is held by its function alone, and holds nothing yet. -/
theorem Shape.addBlock (shape : p.Shape) {f : FunctionId} (label : String)
    (known : (p.function? f).isSome) : (p.addBlock f label).2.Shape := by
  have blocks (g : FunctionId) : ((p.addBlock f label).2.function g).blocks =
      if g = f then (p.function g).blocks ++ [p.nodes.size] else (p.function g).blocks := by
    simp only [Program.function, function?_addBlock]
    split
    next same =>
      obtain ⟨fn, hfn⟩ := Option.isSome_iff_exists.mp known
      rw [same, hfn]
      rfl
    next => rfl
  have readBlock (b : BlockId) : ((p.addBlock f label).2.block b).ops = (p.block b).ops ∧
      ((p.addBlock f label).2.block b).successors = (p.block b).successors := by
    simp only [Program.block, block?_addBlock]
    split
    next h => rw [h, block?_size]; exact ⟨rfl, rfl⟩
    next => exact ⟨rfl, rfl⟩
  have readOp (o : OpId) : (p.addBlock f label).2.op o = p.op o := by
    simp only [Program.op, op?_addBlock]
  have older {g : FunctionId} {b : BlockId} (h : b ∈ (p.function g).blocks) : b ≠ p.nodes.size := by
    obtain ⟨block, hb, _⟩ := shape.block_of_mem h
    exact Nat.ne_of_lt (lt_size_of_block? p hb)
  have keeps {g : FunctionId} {b : BlockId} (h : b ∈ (p.function g).blocks) :
      b ∈ ((p.addBlock f label).2.function g).blocks := by
    rw [blocks]
    split
    next => exact List.mem_append_left _ h
    next => exact h
  refine ⟨?_, ?_, ?_, ?_, ?_, ?_, ?_, ?_, ?_⟩
  · exact shape.registered.of_grows (grows_addBlock p f label) rfl
  · intro g b h
    rw [block?_addBlock]
    rw [blocks] at h
    have old (h : b ∈ (p.function g).blocks) : ∃ block, (if b = p.nodes.size
        then some (emptyBlock f label) else p.block? b) = some block ∧ block.function = g := by
      rw [if_neg (older h)]
      exact shape.block_of_mem h
    split at h
    next same =>
      rcases List.mem_append.mp h with h | new
      · exact old h
      · rw [if_pos (List.mem_singleton.mp new)]
        exact ⟨_, rfl, same.symm⟩
    next => exact old h
  · intro b block h
    rw [block?_addBlock] at h
    split at h
    next new =>
      cases h
      change b ∈ ((p.addBlock f label).2.function f).blocks
      rw [blocks, if_pos rfl, new]
      exact List.mem_append_right _ (List.mem_singleton.mpr rfl)
    next => exact keeps (shape.mem_of_block h)
  · intro g
    rw [blocks]
    split
    next =>
      refine List.nodup_append.mpr ⟨shape.blocks_nodup g, by simp, ?_⟩
      intro b hb c hc same
      exact older hb (same.trans (List.mem_singleton.mp hc))
    next => exact shape.blocks_nodup g
  · intro b o h
    rw [(readBlock b).1] at h
    rw [readOp]
    exact shape.op_of_mem h
  · intro b o h
    rw [readOp] at h
    rw [(readBlock b).1]
    exact shape.mem_of_op h
  · intro b
    rw [(readBlock b).1]
    exact shape.ops_nodup b
  · intro b s h
    rw [(readBlock b).2] at h
    obtain ⟨block, hb⟩ := block?_of_mem_successors h
    have old : (p.addBlock f label).2.block b = p.block b := by
      simp only [Program.block, block?_addBlock, if_neg (Nat.ne_of_lt (lt_size_of_block? p hb))]
    rw [old]
    exact keeps (shape.successor_mem h)
  · intro b
    rw [(readBlock b).2]
    exact shape.successors_nodup b

/-! ## An operation at the end of a block -/

/-- The operation of `addOp` before it stands in the list of its block. -/
theorem op_pushOp (p : Program) (block : Option BlockId) (kind : OpKind) (i : OpId) :
    ((p.pushOp block kind).2.op i).block = (if i = p.nodes.size then block else (p.op i).block) ∧
    ((p.pushOp block kind).2.op i).kind = (if i = p.nodes.size then kind else (p.op i).kind) ∧
    ((p.pushOp block kind).2.op i).operands = (p.op i).operands := by
  simp only [pushOp, Program.op, op?_push]
  by_cases new : i = p.nodes.size
  · simp only [new, op?_size]
    exact ⟨rfl, rfl, rfl⟩
  · simp only [if_neg new]
    exact ⟨trivial, trivial, trivial⟩

theorem function?_pushOp (p : Program) (block : Option BlockId) (kind : OpKind) (f : FunctionId) :
    (p.pushOp block kind).2.function? f = p.function? f := by
  simp only [pushOp, function?_push]
  split
  next h => rw [h, function?_size]
  next => rfl

theorem block?_pushOp (p : Program) (block : Option BlockId) (kind : OpKind) (b : BlockId) :
    (p.pushOp block kind).2.block? b = p.block? b := by
  simp only [pushOp, block?_push]
  split
  next h => rw [h, block?_size]
  next => rfl

theorem grows_pushOp (p : Program) (block : Option BlockId) (kind : OpKind) :
    Grows p (p.pushOp block kind).2 where
  function h := by rwa [function?_pushOp]
  block h := by rwa [block?_pushOp]
  op h := by
    simp only [pushOp, op?_push]
    split
    next => rfl
    next => exact h
  kind {o} h := by
    rw [(op_pushOp p block kind o).2.1]
    split
    next new => rw [new, op?_size] at h; cases h
    next => rfl
  operands o := Nat.le_of_eq (by rw [(op_pushOp p block kind o).2.2])

/-- The part of `addOp` between the new operation and the list of its block: operands and result. -/
def dressOp (p : Program) (b : BlockId) (kind : OpKind) (operands : List ValueId)
    (result : Option (String × Ty)) : Program :=
  let q := (p.pushOp (some b) kind).2.attach p.nodes.size operands
  match result with
  | none => q
  | some (name, type) =>
    (q.push (.value { name := name, type := type,
                      origin := .result p.nodes.size (q.block b).function, uses := [] })).2.modifyOp
      p.nodes.size fun op => { op with result := some q.nodes.size }

theorem addOp_eq (p : Program) (b : BlockId) (kind : OpKind) (operands : List ValueId)
    (result : Option (String × Ty)) :
    p.addOp b kind operands result = (p.nodes.size,
      (p.dressOp b kind operands result).modifyBlock b fun block =>
      { block with ops := block.ops ++ [p.nodes.size] }) := by
  cases result <;> rfl

theorem sameShape_dressOp (p : Program) (b : BlockId) (kind : OpKind) (operands : List ValueId)
    (result : Option (String × Ty)) :
    SameShape (p.pushOp (some b) kind).2 (p.dressOp b kind operands result) := by
  have attached := sameShape_attach (p.pushOp (some b) kind).2 p.nodes.size operands
  cases result with
  | none => exact attached
  | some typed =>
    simp only [dressOp]
    generalize (p.pushOp (some b) kind).2.attach p.nodes.size operands = q at attached ⊢
    have pushed := sameShape_pushValue q
      { name := typed.1, type := typed.2, origin := .result p.nodes.size (q.block b).function,
        uses := [] }
    refine attached.trans (pushed.trans ?_)
    exact sameShape_modifyOp _ _ (fun _ => rfl) (fun _ => rfl) fun _ => Nat.le_refl _

theorem grows_modifyBlock (p : Program) (b : BlockId) (change : Block → Block) :
    Grows p (p.modifyBlock b change) where
  function h := by rwa [function?_modifyBlock]
  block h := by
    rw [block?_modifyBlock]
    split
    next => rwa [Option.isSome_map]
    next => exact h
  op h := by rwa [op?_modifyBlock]
  kind _ := by simp only [Program.op, op?_modifyBlock]
  operands o := Nat.le_of_eq (by simp only [Program.op, op?_modifyBlock])

theorem grows_addOp (p : Program) (b : BlockId) (kind : OpKind) (operands : List ValueId)
    (result : Option (String × Ty)) :
    Grows p (p.addOp b kind operands result).2 := by
  rw [addOp_eq]
  exact ((grows_pushOp p _ _).trans (sameShape_dressOp p b kind operands result).toGrows).trans
    (grows_modifyBlock _ b _)

/-- A program that differs from another by one new operation at the end of a block. -/
theorem Shape.append {r : Program} (shape : p.Shape) {b : BlockId} {o : OpId} {held : Block}
    (known : p.block? b = some held) (fresh : p.op? o = none) (registered : r.Registered)
    (blocks : ∀ f, (r.function f).blocks = (p.function f).blocks)
    (block? : ∀ x, r.block? x = if x = b then some { held with ops := held.ops ++ [o] }
      else p.block? x)
    (opBlock : ∀ i, (r.op i).block = if i = o then some b else (p.op i).block) : r.Shape := by
  have ops (x : BlockId) : (r.block x).ops =
      if x = b then (p.block x).ops ++ [o] else (p.block x).ops := by
    simp only [Program.block, block?]
    split
    next same => rw [same, known]; rfl
    next => rfl
  have rest (x : BlockId) : (r.block x).function = (p.block x).function ∧
      (r.block x).successors = (p.block x).successors := by
    simp only [Program.block, block?]
    split
    next same => rw [same, known]; exact ⟨rfl, rfl⟩
    next => exact ⟨rfl, rfl⟩
  have unheld (x : BlockId) : o ∉ (p.block x).ops := by
    intro h
    have held := shape.op_of_mem h
    simp only [Program.op, fresh, Option.getD_none] at held
    cases held
  refine ⟨registered, ?_, ?_, ?_, ?_, ?_, ?_, ?_, ?_⟩
  · intro f x h
    rw [blocks] at h
    obtain ⟨block, hx, hf⟩ := shape.block_of_mem h
    rw [block?]
    split
    next same =>
      refine ⟨_, rfl, ?_⟩
      rw [same, known] at hx
      cases hx
      exact hf
    next => exact ⟨block, hx, hf⟩
  · intro x block h
    rw [blocks]
    rw [block?] at h
    split at h
    next same =>
      cases h
      rw [same]
      change b ∈ (p.function held.function).blocks
      exact shape.mem_of_block known
    next => exact shape.mem_of_block h
  · intro f
    rw [blocks]
    exact shape.blocks_nodup f
  · intro x i h
    rw [ops] at h
    rw [opBlock]
    have old (h : i ∈ (p.block x).ops) : (if i = o then some b else (p.op i).block) = some x := by
      rw [if_neg fun (same : i = o) => unheld x (same ▸ h)]
      exact shape.op_of_mem h
    split at h
    next same =>
      rcases List.mem_append.mp h with h | new
      · exact old h
      · rw [if_pos (List.mem_singleton.mp new), same]
    next => exact old h
  · intro x i h
    rw [opBlock] at h
    rw [ops]
    split at h
    next new =>
      cases h
      rw [if_pos rfl, new]
      exact List.mem_append_right _ (List.mem_singleton.mpr rfl)
    next =>
      have held := shape.mem_of_op h
      split
      next => exact List.mem_append_left _ held
      next => exact held
  · intro x
    rw [ops]
    split
    next =>
      refine List.nodup_append.mpr ⟨shape.ops_nodup x, by simp, ?_⟩
      intro i hi j hj same
      exact unheld x (List.mem_singleton.mp hj ▸ same ▸ hi)
    next => exact shape.ops_nodup x
  · intro x s h
    rw [(rest x).2] at h
    rw [(rest x).1, blocks]
    exact shape.successor_mem h
  · intro x
    rw [(rest x).2]
    exact shape.successors_nodup x

theorem Shape.addOp (shape : p.Shape) {b : BlockId} (known : (p.block? b).isSome) (kind : OpKind)
    (operands : List ValueId) (result : Option (String × Ty)) :
    (p.addOp b kind operands result).2.Shape := by
  obtain ⟨held, hheld⟩ := Option.isSome_iff_exists.mp known
  have dressed := sameShape_dressOp p b kind operands result
  have grows := grows_modifyBlock (p.dressOp b kind operands result) b fun block =>
    { block with ops := block.ops ++ [p.nodes.size] }
  rw [addOp_eq]
  refine shape.append hheld (op?_size p) ?_ ?_ ?_ ?_
  · have pushed := shape.registered.of_grows (grows_pushOp p (some b) kind) rfl
    exact (dressed.registered pushed).of_grows grows rfl
  · intro f
    have same := dressed.blocks f
    simp only [Program.function, function?_pushOp] at same
    simp only [Program.function, function?_modifyBlock, same]
  · intro x
    rw [block?_modifyBlock, dressed.sameBlock, block?_pushOp]
    split
    next same => rw [same, hheld]; rfl
    next => rfl
  · intro i
    rw [← (op_pushOp p (some b) kind i).1, ← dressed.opBlock]
    simp only [Program.op, op?_modifyBlock]

/-! ## An edge of the control flow -/

theorem grows_link (p : Program) (src dst : BlockId) : Grows p (p.link src dst) := by
  unfold link
  split
  next => exact Grows.refl p
  next => exact (grows_modifyBlock p src _).trans (grows_modifyBlock _ dst _)

/-- A link is seen in the successors of its source and the predecessors of its target. -/
theorem block?_link {src dst : BlockId} (fresh : dst ∉ (p.block src).successors) (b : BlockId) :
    (p.link src dst).block? b = (p.block? b).map fun block =>
      { block with
        successors := if b = src then block.successors ++ [dst] else block.successors
        predecessors := if b = dst then block.predecessors ++ [src] else block.predecessors } := by
  simp only [link, if_neg fresh, block?_modifyBlock]
  cases p.block? b with
  | none => simp only [Option.map_none, ite_self]
  | some block =>
    by_cases atSrc : b = src
    · by_cases atDst : b = dst
      · simp only [if_pos atSrc, if_pos atDst, Option.map_some]
      · simp only [if_pos atSrc, if_neg atDst, Option.map_some]
    · by_cases atDst : b = dst
      · simp only [if_neg atSrc, if_pos atDst, Option.map_some]
      · simp only [if_neg atSrc, if_neg atDst, Option.map_some]

/-- A link inside a function keeps the shape. -/
theorem Shape.link (shape : p.Shape) {src dst : BlockId}
    (inside : dst ∈ (p.function (p.block src).function).blocks) : (p.link src dst).Shape := by
  by_cases old : dst ∈ (p.block src).successors
  · simp only [Program.link, if_pos old]
    exact shape
  · have readBlock (b : BlockId) : ((p.link src dst).block b).function = (p.block b).function ∧
        ((p.link src dst).block b).ops = (p.block b).ops := by
      simp only [Program.block, block?_link old]
      cases p.block? b <;> exact ⟨rfl, rfl⟩
    have successors (b : BlockId) : ((p.link src dst).block b).successors = (p.block b).successors ∨
        b = src ∧ ((p.link src dst).block b).successors = (p.block b).successors ++ [dst] := by
      simp only [Program.block, block?_link old]
      cases p.block? b with
      | none => exact .inl rfl
      | some block =>
        simp only [Option.map_some, Option.getD_some]
        split
        next same => exact .inr ⟨same, rfl⟩
        next => exact .inl rfl
    have function (f : FunctionId) : (p.link src dst).function? f = p.function? f := by
      simp only [Program.link, if_neg old, function?_modifyBlock]
    have readFunction (f : FunctionId) : (p.link src dst).function f = p.function f := by
      simp only [Program.function, function]
    have readOp (o : OpId) : (p.link src dst).op o = p.op o := by
      simp only [Program.op, Program.link, if_neg old, op?_modifyBlock]
    refine ⟨?_, ?_, ?_, ?_, ?_, ?_, ?_, ?_, ?_⟩
    · refine shape.registered.of_grows (grows_link p src dst) ?_
      simp only [Program.link, if_neg old]
      rfl
    · intro f b h
      rw [readFunction] at h
      obtain ⟨block, hb, hf⟩ := shape.block_of_mem h
      rw [block?_link old, hb]
      exact ⟨_, rfl, hf⟩
    · intro b block h
      rw [block?_link old] at h
      obtain ⟨before, hb, rfl⟩ := Option.map_eq_some_iff.mp h
      rw [readFunction]
      change b ∈ (p.function before.function).blocks
      exact shape.mem_of_block hb
    · intro f
      rw [readFunction]
      exact shape.blocks_nodup f
    · intro b o h
      rw [(readBlock b).2] at h
      rw [readOp]
      exact shape.op_of_mem h
    · intro b o h
      rw [readOp] at h
      rw [(readBlock b).2]
      exact shape.mem_of_op h
    · intro b
      rw [(readBlock b).2]
      exact shape.ops_nodup b
    · intro b s h
      rw [(readBlock b).1, readFunction]
      rcases successors b with same | ⟨atSrc, more⟩
      · exact shape.successor_mem (same ▸ h)
      · rcases List.mem_append.mp (more ▸ h) with h | new
        · exact shape.successor_mem h
        · rw [List.mem_singleton.mp new, atSrc]
          exact inside
    · intro b
      rcases successors b with same | ⟨atSrc, more⟩
      · rw [same]
        exact shape.successors_nodup b
      · rw [more]
        refine List.nodup_append.mpr ⟨shape.successors_nodup b, by simp, ?_⟩
        intro s hs t ht same
        rw [List.mem_singleton.mp ht] at same
        exact old (atSrc ▸ same ▸ hs)

end Relock.Program
