import Relock.Proofs.Keyed
import Relock.Proofs.Program.Builder

/-!
# The shape of programs made from sources

`Program.ofSource` lays out the blocks and operations of a body, then connects the operations, then
links the blocks. The layout is the only part that adds what is held, the links are the only part
that adds control flow, and both stay inside the function whose body it is; so the program has a
`Shape`.

The operations are laid out bare and get their operands afterwards. `Bare` names the operations that
have fewer operands than their kind needs; they are among those laid out and not connected yet.
-/

namespace Relock

/-- The least number of operands that an operation of a kind is written with. -/
def OpKind.leastOperands : OpKind → Nat
  | .store | .memcpy | .memset | .cmp | .binop | .insert => 2
  | .load | .cast | .gep | .extract | .phi | .condbr | .switch => 1
  | _ => 0

/-- An operation as written has the operands that its kind needs. -/
def Source.Op.Complete (op : Source.Op) : Prop := op.kind.leastOperands ≤ op.operands.length

/-- Every operation of an item's body has its operands. -/
def Source.Item.Complete (item : Source.Item Source.Block) : Prop :=
  match item with
  | .function _ blocks => ∀ block ∈ blocks, ∀ op ∈ block.ops, op.Complete
  | _ => True

namespace Program

/-- An operation with fewer operands than its kind needs. -/
def Bare (p : Program) (o : OpId) : Prop := (p.op o).operands.length < (p.op o).kind.leastOperands

theorem SameShape.bare {p q : Program} (same : SameShape p q) {o : OpId} (bare : q.Bare o) :
    p.Bare o := by
  unfold Bare at bare ⊢
  rw [same.opKind] at bare
  exact Nat.lt_of_le_of_lt (same.operands o) bare

/-! ## Items -/

theorem sameShape_declareItem {β : Type} (p : Program) (item : Source.Item β) :
    SameShape p (p.declareItem item) := by
  cases item with
  | struct name fields => exact sameShape_setStruct p name fields
  | global name type => exact sameShape_addGlobal p name type
  | function signature blocks =>
    have params := SameShape.foldl
      (fun q (param : String × Ty) =>
        sameShape_addParam q (p.addFunction signature.name).1 param.1 param.2)
      signature.params (p.addFunction signature.name).2
    refine (sameShape_addFunction p signature.name).trans (params.trans ?_)
    exact sameShape_modifyFunction _ _ fun _ => rfl

/-! ## Connecting operations -/

theorem sameShape_operandValue (scope : List (String × ValueId)) (p : Program)
    (operand : Source.Operand) :
    SameShape p (operandValue scope p operand).2 := by
  cases operand with
  | constant n => exact sameShape_addConstant p n .unknown
  | value name => exact SameShape.refl p
  | function name => exact (sameShape_addFunction p name).trans (sameShape_addFunctionRef _ _)

theorem sameShape_operandValues (scope : List (String × ValueId)) (operands : List Source.Operand)
    (p : Program) :
    SameShape p (operandValues scope p operands).2 := by
  induction operands generalizing p with
  | nil => exact SameShape.refl p
  | cons operand operands ih => exact (sameShape_operandValue scope p operand).trans (ih _)

theorem length_operandValues (scope : List (String × ValueId)) (operands : List Source.Operand)
    (p : Program) :
    (operandValues scope p operands).1.length = operands.length := by
  induction operands generalizing p with
  | nil => rfl
  | cons operand operands ih => exact congrArg (· + 1) (ih _)

theorem sameShape_calleeValue (scope : List (String × ValueId)) (p : Program)
    (callee : Option Source.Callee) :
    SameShape p (calleeValue scope p callee).2 := by
  match callee with
  | none => exact SameShape.refl p
  | some (.function name) => exact sameShape_addFunction p name
  | some (.value name) => exact SameShape.refl p

/-- Attaching operands to an operation of the program adds exactly them. -/
theorem length_attach (o : OpId) (operands : List ValueId) (p : Program)
    (known : (p.op? o).isSome) :
    ((p.attach o operands).op o).operands.length = (p.op o).operands.length + operands.length := by
  induction operands generalizing p with
  | nil => rfl
  | cons v operands ih =>
    obtain ⟨op, hop⟩ := Option.isSome_iff_exists.mp known
    have one : ((p.attachOne o v).op o).operands = (p.op o).operands ++ [v] := by
      simp only [attachOne, Program.op, op?_modifyValue, op?_modifyOp, if_pos, hop]
      rfl
    have rest := ih (p.attachOne o v) ((sameShape_attachOne p o v).op known)
    rw [one, List.length_append, List.length_singleton] at rest
    rw [List.length_cons, Nat.add_comm operands.length, ← Nat.add_assoc]
    exact rest

/-- Connecting an operation changes no edge. -/
theorem sameShape_wireOp (scope : List (String × ValueId)) (p : Program)
    (placed : OpId × Source.Op) :
    SameShape p (wireOp scope p placed) := by
  obtain ⟨o, op⟩ := placed
  have callee := sameShape_calleeValue scope p op.callee
  have operands := sameShape_operandValues scope op.operands (calleeValue scope p op.callee).2
  refine (callee.trans operands).trans (SameShape.trans ?_ (sameShape_attach _ o _))
  exact sameShape_modifyOp _ o (fun _ => rfl) (fun _ => rfl) fun _ => Nat.le_refl _

/-- A connected operation has at least the operands it is written with. -/
theorem length_wireOp (scope : List (String × ValueId)) (p : Program) (o : OpId) (op : Source.Op)
    (known : (p.op? o).isSome) :
    op.operands.length ≤ ((wireOp scope p (o, op)).op o).operands.length := by
  have made := (sameShape_calleeValue scope p op.callee).trans
    (sameShape_operandValues scope op.operands (calleeValue scope p op.callee).2)
  let q := (operandValues scope (calleeValue scope p op.callee).2 op.operands).2
  have labelled : SameShape q (q.modifyOp o fun made =>
      { made with callee := (calleeValue scope p op.callee).1, indices := op.indices,
                  targets := op.targets }) :=
    sameShape_modifyOp q o (fun _ => rfl) (fun _ => rfl) fun _ => Nat.le_refl _
  have attached := length_attach o
    (operandValues scope (calleeValue scope p op.callee).2 op.operands).1 _
    ((made.trans labelled).op known)
  rw [length_operandValues] at attached
  exact Nat.le_trans (Nat.le_add_left _ _) (Nat.le_of_eq attached.symm)

/-- Connecting complete operations leaves none of them bare. -/
theorem bare_wire (scope : List (String × ValueId)) (placed : List (OpId × Source.Op)) (p : Program)
    (ready : ∀ {o op}, (o, op) ∈ placed → (p.op? o).isSome ∧ (p.op o).kind = op.kind ∧ op.Complete)
    {o : OpId} (bare : (placed.foldl (wireOp scope) p).Bare o) :
    p.Bare o ∧ ∀ op, (o, op) ∉ placed := by
  induction placed generalizing p with
  | nil => exact ⟨bare, fun _ => List.not_mem_nil⟩
  | cons first placed ih =>
    have same := sameShape_wireOp scope p first
    have ready' : ∀ {o op}, (o, op) ∈ placed → ((wireOp scope p first).op? o).isSome ∧
        ((wireOp scope p first).op o).kind = op.kind ∧ op.Complete := by
      intro o op h
      obtain ⟨known, kind, complete⟩ := ready (List.mem_cons_of_mem _ h)
      exact ⟨same.op known, (same.opKind o).trans kind, complete⟩
    obtain ⟨bareAfter, others⟩ := ih (wireOp scope p first) ready' bare
    refine ⟨same.bare bareAfter, fun op h => ?_⟩
    rcases List.mem_cons.mp h with here | later
    · subst here
      obtain ⟨known, kind, complete⟩ := ready List.mem_cons_self
      have operands := length_wireOp scope p o op known
      unfold Bare at bareAfter
      rw [same.opKind, kind] at bareAfter
      exact absurd (Nat.le_trans complete operands) (Nat.not_le_of_lt bareAfter)
    · exact others op later

/-! ## Laying out a body -/

/-- What a new operation is. -/
theorem kind_addOp (p : Program) (b : BlockId) (kind : OpKind) (operands : List ValueId)
    (result : Option (String × Ty)) (i : OpId) : ((p.addOp b kind operands result).2.op i).kind =
      if i = p.nodes.size then kind else (p.op i).kind := by
  rw [addOp_eq, ← (op_pushOp p (some b) kind i).2.1, ← (sameShape_dressOp p b kind operands
    result).opKind i]
  simp only [Program.op, op?_modifyBlock]

theorem op?_addOp_isSome (p : Program) (b : BlockId) (kind : OpKind) (operands : List ValueId)
    (result : Option (String × Ty)) :
    ((p.addOp b kind operands result).2.op? p.nodes.size).isSome := by
  have pushed : ((p.pushOp (some b) kind).2.op? p.nodes.size).isSome := by
    simp only [pushOp, op?_push, if_true, Option.isSome_some]
  rw [addOp_eq]
  exact (grows_modifyBlock _ b _).op ((sameShape_dressOp p b kind operands result).op pushed)

/-- A body whose blocks are laid out over a program: the edges are in order, and every bare
operation is among those laid out, which are complete as written. -/
structure LaidOut (p : Program) (layout : Layout) : Prop where
  shape : layout.program.Shape
  grows : Grows p layout.program
  placed : ∀ {o op}, (o, op) ∈ layout.placed →
    (layout.program.op? o).isSome ∧ (layout.program.op o).kind = op.kind ∧ op.Complete
  bare : ∀ {o}, layout.program.Bare o → ∃ op, (o, op) ∈ layout.placed

theorem LaidOut.addOp {p : Program} {layout : Layout} (laid : LaidOut p layout) {b : BlockId}
    (known : (layout.program.block? b).isSome) {op : Source.Op} (complete : op.Complete) :
    LaidOut p (Layout.addOp b layout op) ∧
    Grows layout.program (Layout.addOp b layout op).program := by
  let made := (layout.program.addOp b op.kind [] op.result).2
  have grows : Grows layout.program made := grows_addOp _ b op.kind [] op.result
  have located : SameShape made (made.modifyOp layout.program.nodes.size fun made =>
      { made with location := op.location }) :=
    sameShape_modifyOp made _ (fun _ => rfl) (fun _ => rfl) fun _ => Nat.le_refl _
  have program : (Layout.addOp b layout op).program = made.modifyOp layout.program.nodes.size
      fun made =>
      { made with location := op.location } := rfl
  have placed : (Layout.addOp b layout op).placed =
      layout.placed ++ [(layout.program.nodes.size, op)] := rfl
  have kind (i : OpId) : ((Layout.addOp b layout op).program.op i).kind =
      if i = layout.program.nodes.size then op.kind else (layout.program.op i).kind := by
    rw [program, located.opKind, kind_addOp]
  have grown : Grows layout.program (Layout.addOp b layout op).program := by
    rw [program]
    exact grows.trans located.toGrows
  refine ⟨⟨?_, laid.grows.trans grown, ?_, ?_⟩, grown⟩
  · rw [program]
    exact (laid.shape.addOp known op.kind [] op.result).of_same located
  · intro i written h
    rw [placed] at h
    rcases List.mem_append.mp h with old | new
    · obtain ⟨there, sameKind, written_complete⟩ := laid.placed old
      exact ⟨grown.op there, (grown.kind there).trans sameKind, written_complete⟩
    · cases List.mem_singleton.mp new
      refine ⟨?_, ?_, complete⟩
      · rw [program]
        exact located.op (op?_addOp_isSome _ b op.kind [] op.result)
      · rw [kind, if_pos rfl]
  · intro i bare
    rw [placed]
    by_cases new : i = layout.program.nodes.size
    · exact ⟨op, List.mem_append_right _ (List.mem_singleton.mpr (by rw [new]))⟩
    · unfold Bare at bare
      rw [kind, if_neg new] at bare
      obtain ⟨written, h⟩ := laid.bare (o := i) (Nat.lt_of_le_of_lt (grown.operands i) bare)
      exact ⟨written, List.mem_append_left _ h⟩

/-- The operations of a block are laid out one after the other. -/
theorem LaidOut.addOps {p : Program} {b : BlockId} (ops : List Source.Op) {layout : Layout}
    (laid : LaidOut p layout) (known : (layout.program.block? b).isSome)
    (complete : ∀ op ∈ ops, op.Complete) : LaidOut p (ops.foldl (Layout.addOp b) layout) := by
  induction ops generalizing layout with
  | nil => exact laid
  | cons op ops ih =>
    obtain ⟨next, grown⟩ := laid.addOp known (complete op List.mem_cons_self)
    exact ih next (grown.block known) fun op h => complete op (List.mem_cons_of_mem _ h)

theorem LaidOut.addBlock {p : Program} {layout : Layout} (laid : LaidOut p layout) {f : FunctionId}
    (known : (p.function? f).isSome) {block : Source.Block}
    (complete : ∀ op ∈ block.ops, op.Complete) :
    LaidOut p (Layout.addBlock f layout block) := by
  let made := (layout.program.addBlock f block.label).2
  have grows : Grows layout.program made := grows_addBlock _ f block.label
  have readOp (o : OpId) : made.op o = layout.program.op o := by
    simp only [made, Program.op, op?_addBlock]
  have start : LaidOut p { layout with program := made } := by
    refine ⟨laid.shape.addBlock block.label (laid.grows.function known),
      laid.grows.trans grows, ?_, ?_⟩
    · intro o op h
      obtain ⟨there, kind, written_complete⟩ := laid.placed h
      exact ⟨grows.op there, (grows.kind there).trans kind, written_complete⟩
    · intro o bare
      unfold Bare at bare
      rw [readOp] at bare
      exact laid.bare bare
  have there : (made.block? layout.program.nodes.size).isSome := by
    simp only [made, block?_addBlock, if_true, Option.isSome_some]
  exact LaidOut.addOps block.ops start there complete

theorem LaidOut.addBlocks {p : Program} {f : FunctionId} (blocks : List Source.Block)
    {layout : Layout} (laid : LaidOut p layout) (known : (p.function? f).isSome)
    (complete : ∀ block ∈ blocks, ∀ op ∈ block.ops, op.Complete) :
    LaidOut p (blocks.foldl (Layout.addBlock f) layout) := by
  induction blocks generalizing layout with
  | nil => exact laid
  | cons block blocks ih =>
    refine ih (laid.addBlock known (complete block List.mem_cons_self)) fun block h => ?_
    exact complete block (List.mem_cons_of_mem _ h)

/-! ## Linking blocks -/

/-- Only blocks change. -/
structure SameRest (p q : Program) : Prop where
  function : ∀ f, q.function? f = p.function? f
  op : ∀ o, q.op? o = p.op? o

theorem SameRest.trans {p q r : Program} (pq : SameRest p q) (qr : SameRest q r) : SameRest p r :=
  ⟨fun f => (qr.function f).trans (pq.function f), fun o => (qr.op o).trans (pq.op o)⟩

theorem sameRest_link (p : Program) (src dst : BlockId) : SameRest p (p.link src dst) := by
  unfold link
  split
  next => exact ⟨fun _ => rfl, fun _ => rfl⟩
  next =>
    refine ⟨fun f => ?_, fun o => ?_⟩
    · rw [function?_modifyBlock, function?_modifyBlock]
    · rw [op?_modifyBlock, op?_modifyBlock]

/-- Links from a block of a function to blocks of the function. -/
theorem Shape.links {f : FunctionId} {b : BlockId} (targets : List BlockId) {p : Program}
    (shape : p.Shape) (held : b ∈ (p.function f).blocks)
    (inside : ∀ dst ∈ targets, dst ∈ (p.function f).blocks) :
    (targets.foldl (fun p dst => p.link b dst) p).Shape ∧
      SameRest p (targets.foldl (fun p dst => p.link b dst) p) := by
  induction targets generalizing p with
  | nil => exact ⟨shape, fun _ => rfl, fun _ => rfl⟩
  | cons dst targets ih =>
    have rest := sameRest_link p b dst
    have function (g : FunctionId) : (p.link b dst).function g = p.function g := by
      simp only [Program.function, rest.function]
    have linked : (p.link b dst).Shape := by
      refine shape.link ?_
      rw [shape.function_of_mem held]
      exact inside dst List.mem_cons_self
    have after := ih linked (function f ▸ held) fun x h => by
      rw [function]
      exact inside x (List.mem_cons_of_mem _ h)
    exact ⟨after.1, rest.trans after.2⟩

theorem mem_blocks_of_blockNamed? {p : Program} {f : FunctionId} {label : String} {b : BlockId}
    (h : p.blockNamed? f label = some b) : b ∈ (p.function f).blocks :=
  List.mem_reverse.mp (List.mem_of_find?_eq_some h)

theorem Shape.linkBlock {f : FunctionId} {b : BlockId} {p : Program} (shape : p.Shape)
    (held : b ∈ (p.function f).blocks) :
    (Program.linkBlock f p b).Shape ∧ SameRest p (Program.linkBlock f p b) := by
  unfold Program.linkBlock
  cases p.terminator? b with
  | none => exact ⟨shape, fun _ => rfl, fun _ => rfl⟩
  | some o =>
    refine shape.links _ held fun dst h => ?_
    obtain ⟨label, _, named⟩ := List.mem_filterMap.mp h
    exact mem_blocks_of_blockNamed? named

theorem Shape.linkBlocks {f : FunctionId} (blocks : List BlockId) {p : Program} (shape : p.Shape)
    (held : ∀ b ∈ blocks, b ∈ (p.function f).blocks) :
    (blocks.foldl (Program.linkBlock f) p).Shape ∧
    SameRest p (blocks.foldl (Program.linkBlock f) p) := by
  induction blocks generalizing p with
  | nil => exact ⟨shape, fun _ => rfl, fun _ => rfl⟩
  | cons b blocks ih =>
    obtain ⟨linked, rest⟩ := shape.linkBlock (held b List.mem_cons_self)
    have after := ih linked fun x h => by
      simp only [Program.function, rest.function]
      exact held x (List.mem_cons_of_mem _ h)
    exact ⟨after.1, rest.trans after.2⟩

/-! ## Whole programs -/

/-- What holds of a program between two items: the edges are in order and no operation is bare. -/
structure Finished (p : Program) : Prop where
  shape : p.Shape
  filled : ∀ o, ¬ p.Bare o

theorem finished_empty (name : String) : (empty name).Finished := by
  have node (id : Nat) : (empty name).node id = .vacant := by
    cases id with
    | zero => rfl
    | succ id => rfl
  have function (f : FunctionId) : (empty name).function f = default := by
    simp only [Program.function, function?, node, Option.getD_none]
  have block (b : BlockId) : (empty name).block b = default := by
    simp only [Program.block, block?, node, Option.getD_none]
  have op (o : OpId) : (empty name).op o = default := by
    simp only [Program.op, op?, node, Option.getD_none]
  refine ⟨⟨⟨?_, List.nodup_nil⟩, ?_, ?_, ?_, ?_, ?_, ?_, ?_, ?_⟩, ?_⟩
  · intro f h
    exact absurd h List.not_mem_nil
  · intro f b h
    rw [function] at h
    exact absurd h List.not_mem_nil
  · intro b held h
    simp only [block?, node, reduceCtorEq] at h
  · intro f
    rw [function]
    exact List.nodup_nil
  · intro b o h
    rw [block] at h
    exact absurd h List.not_mem_nil
  · intro b o h
    rw [op] at h
    cases h
  · intro b
    rw [block]
    exact List.nodup_nil
  · intro b s h
    rw [block] at h
    exact absurd h List.not_mem_nil
  · intro b
    rw [block]
    exact List.nodup_nil
  · intro o
    unfold Bare
    rw [op]
    exact Nat.lt_irrefl 0

theorem Finished.of_same {p q : Program} (finished : p.Finished) (same : SameShape p q) :
    q.Finished :=
  ⟨finished.shape.of_same same, fun o bare => finished.filled o (same.bare bare)⟩

/-- The body of a function whose operations are complete as written. -/
theorem Finished.addBody {p : Program} (finished : p.Finished) {f : FunctionId}
    (known : (p.function? f).isSome) {blocks : List Source.Block}
    (complete : ∀ block ∈ blocks, ∀ op ∈ block.ops, op.Complete) :
    (p.addBody f blocks).Finished := by
  let start : Layout :=
    { program := p, scope := ((p.function f).params.map fun v => ((p.value v).name, v)).reverse,
      placed := [] }
  have laid : LaidOut p (blocks.foldl (Layout.addBlock f) start) := by
    refine LaidOut.addBlocks blocks ⟨finished.shape, Grows.refl p, ?_, ?_⟩ known complete
    · intro o op h
      exact absurd h List.not_mem_nil
    · intro o bare
      exact absurd bare (finished.filled o)
  generalize hl : blocks.foldl (Layout.addBlock f) start = layout at laid
  have wired := SameShape.foldl (sameShape_wireOp layout.scope) layout.placed layout.program
  generalize hw : layout.placed.foldl (wireOp layout.scope) layout.program = q at wired
  have shape : q.Shape := laid.shape.of_same wired
  have filled (o : OpId) : ¬ q.Bare o := by
    intro bare
    obtain ⟨before, others⟩ :=
      bare_wire layout.scope layout.placed layout.program laid.placed (hw ▸ bare)
    obtain ⟨op, h⟩ := laid.bare before
    exact others op h
  have made : p.addBody f blocks = (q.function f).blocks.foldl (linkBlock f) q := by
    rw [← hw, ← hl]
    rfl
  obtain ⟨linked, rest⟩ := shape.linkBlocks (q.function f).blocks fun b h => h
  rw [made]
  refine ⟨linked, fun o bare => filled o ?_⟩
  unfold Bare at bare ⊢
  simpa only [Program.op, rest.op] using bare

theorem Finished.addItemBody {p : Program} (finished : p.Finished) {item : Source.Item Source.Block}
    (complete : item.Complete) : (p.addItemBody item).Finished := by
  match item with
  | .struct _ _ => exact finished
  | .global _ _ => exact finished
  | .function _ [] => exact finished
  | .function signature (block :: blocks) =>
    cases named : p.functions.get? signature.name with
    | none =>
      simp only [Program.addItemBody, named]
      exact finished
    | some f =>
      have known := finished.shape.registered.known f
        (List.mem_map_of_mem (Keyed.mem_of_get? named))
      simp only [Program.addItemBody, named]
      exact finished.addBody known complete

/-- A program made from a source whose operations are complete. -/
theorem finished_ofSource {source : Source} (complete : ∀ item ∈ source.items, item.Complete) :
    (ofSource source).Finished := by
  have declared : (source.items.foldl declareItem (empty source.name)).Finished :=
    (finished_empty source.name).of_same
      (SameShape.foldl (fun p item => sameShape_declareItem p item) source.items _)
  unfold ofSource
  generalize source.items.foldl declareItem (empty source.name) = p at declared
  generalize source.items = items at complete
  induction items generalizing p with
  | nil => exact declared
  | cons item items ih =>
    refine ih _ (declared.addItemBody (complete item List.mem_cons_self)) fun item h => ?_
    exact complete item (List.mem_cons_of_mem _ h)

end Program
end Relock
