import Mathlib.Data.List.Forall2
import Relock.Proofs.Program.ReadBack

/-!
# Bodies

The body of a function is laid out, connected and linked. `Laid` follows the layout: the blocks so
far stand for the blocks of the text, the operations in them are those to be connected, and every
result has its name in scope. After the operations have been connected, the body reads back as the
text; linking adds to the blocks of the body the successors that their terminators name, and nothing
else.
-/

namespace Relock

/-- The names that an operation gives: that of its result, if it has one. -/
def Source.Op.resultNames (op : Source.Op) : List String := op.result.toList.map (·.1)

/-- The names of the results of a body. -/
def Source.resultNames (blocks : List Source.Block) : List String :=
  blocks.flatMap fun block => block.ops.flatMap Source.Op.resultNames

theorem Source.resultNames_concat (blocks : List Source.Block) (label : String)
    (ops more : List Source.Op) :
    Source.resultNames (blocks ++ [⟨label, ops ++ more⟩]) =
      Source.resultNames (blocks ++ [⟨label, ops⟩]) ++ more.flatMap Source.Op.resultNames := by
  simp only [Source.resultNames, List.flatMap_append, List.flatMap_cons, List.flatMap_nil,
    List.append_nil, List.append_assoc]

/-- A value of a function's own, under a name that the text gives it: a parameter's or a
result's. -/
def Value.OwnName (params results : List String) (x : Value) : Prop :=
  match x.origin with
  | .argument _ => x.name ∈ params
  | .result _ _ => x.name ∈ results
  | _ => False

theorem Value.OwnName.mono {params results more : List String} {x y : Value}
    (name : y.name = x.name) (origin : y.origin = x.origin) (sub : results ⊆ more)
    (own : x.OwnName params results) : y.OwnName params more := by
  unfold OwnName at own ⊢
  rw [name, origin]
  split at own
  · exact own
  · exact sub own
  · exact own

/-- What a name stands for in a function with some parameters and results: a value of the function's
own, or a global if the function has none of the name. Literals have no name. -/
def Value.Resolved (params results : List String) (x : Value) : Prop :=
  x.origin.isLiteral = true ∨ x.OwnName params results ∨
    x.origin = .global ∧ x.name ∉ params ∧ x.name ∉ results

namespace Program

variable {p q : Program} {changing : Nat → Prop} {f : FunctionId}

/-! ## Laying out an operation -/

/-- A new operation stands at the end of its block, without operands; its result comes next. -/
theorem addOp_made (p : Program) {b : BlockId} {held : Block} (known : p.block? b = some held)
    (kind : OpKind) (result : Option (String × Ty)) :
    (p.addOp b kind [] result).2.block? b = some { held with ops := held.ops ++ [p.nodes.size] } ∧
    (p.addOp b kind [] result).2.op? p.nodes.size = some
      { kind := kind, operands := [], result := result.map fun _ => p.nodes.size + 1,
        block := some b, callee := .absent
        targets := [], indices := [], location := none } ∧
    ∀ typed, result = some typed → (p.addOp b kind [] result).2.value? (p.nodes.size + 1) = some
      { name := typed.1, type := typed.2, origin := .result p.nodes.size held.function,
        uses := [] } := by
  have before : b ≠ p.nodes.size := Nat.ne_of_lt (lt_size_of_block? p known)
  have size : (p.pushOp (some b) kind).2.nodes.size = p.nodes.size + 1 := Array.size_push ..
  have there : (p.pushOp (some b) kind).2.block? b = some held := by
    rw [pushOp, block?_push, if_neg before, known]
  have made : (p.pushOp (some b) kind).2.op? p.nodes.size = some
      { kind := kind, operands := [], result := none, block := some b, callee := .absent,
        targets := [], indices := []
        location := none } := by
    rw [pushOp, op?_push, if_pos rfl]
  rw [addOp_eq]
  cases result with
  | none =>
    refine ⟨?_, ?_, fun typed h => absurd h.symm (Option.some_ne_none typed)⟩
    · show ((p.pushOp (some b) kind).2.modifyBlock b _).block? b = _
      rw [block?_modifyBlock, if_pos rfl, there]
      rfl
    · exact (op?_modifyBlock ..).trans made
  | some typed =>
    let x : Value :=
      { name := typed.1, type := typed.2, origin := .result p.nodes.size held.function, uses := [] }
    let r := ((p.pushOp (some b) kind).2.push (.value x)).2
    have dressed : p.dressOp b kind [] (some typed) =
        r.modifyOp p.nodes.size fun op => { op with result := some (p.nodes.size + 1) } := by
      simp only [dressOp, attach, List.foldl_nil, block_eq there, size]
      rfl
    have older : b ≠ (p.pushOp (some b) kind).2.nodes.size := by
      rw [size]
      exact Nat.ne_of_lt (Nat.lt_succ_of_lt (lt_size_of_block? p known))
    have next : p.nodes.size ≠ (p.pushOp (some b) kind).2.nodes.size := by
      rw [size]
      exact Nat.ne_of_lt (Nat.lt_succ_self _)
    rw [dressed]
    refine ⟨?_, ?_, ?_⟩
    · rw [block?_modifyBlock, if_pos rfl, block?_modifyOp, block?_push, if_neg older, there]
      rfl
    · rw [op?_modifyBlock, op?_modifyOp, if_pos rfl, op?_push, if_neg next, made]
      rfl
    · rintro _ ⟨⟩
      rw [value?_modifyBlock, value?_modifyOp, value?_push, if_pos size.symm]

/-- What a layout has of a block of the text: the block, its operations among those to be connected,
and the names of their results. -/
structure Row (f : FunctionId) (layout : Layout) (b : BlockId) (block : Source.Block) : Prop where
  held : ∃ found, layout.program.block? b = some found ∧ found.function = f ∧
    found.name = block.label ∧
    List.Forall₂ (fun o op => (o, op) ∈ layout.placed) found.ops block.ops
  names : ∀ op ∈ block.ops, ∀ name ∈ op.resultNames, name ∈ layout.scope.map (·.1)

theorem Row.mono {layout more : Layout} (keeps : Keeps changing layout.program more.program)
    (scope : layout.scope ⊆ more.scope) (placed : layout.placed ⊆ more.placed) {b : BlockId}
    {block : Source.Block} (kept : ¬ changing b) (row : Row f layout b block) :
    Row f more b block := by
  obtain ⟨⟨found, known, owner, label, ops⟩, names⟩ := row
  refine ⟨⟨found, keeps.sameBlock kept known, owner, label, ?_⟩, fun op hop name hn => ?_⟩
  · exact ops.imp fun o op mem => placed mem
  · exact List.map_subset _ scope (names op hop name hn)

/-- A body whose blocks `bs` stand for the blocks of a text, over a program without it. -/
structure Laid (p : Program) (f : FunctionId) (layout : Layout) (bs : List BlockId)
    (blocks : List Source.Block) :
    Prop where
  quiet : Quiet (fun i => i = f ∨ p.nodes.size ≤ i) p layout.program
  inScope : layout.program.Scoped f layout.scope
  distinct : (layout.placed.map (·.1)).Nodup
  young : ∀ e ∈ layout.placed, p.nodes.size ≤ e.1
  ready : ∀ e ∈ layout.placed, layout.program.Ready f e.1 e.2
  written : ∀ e ∈ layout.placed, ∃ block ∈ blocks, e.2 ∈ block.ops
  params : ∀ v ∈ (p.function f).params, ((p.value v).name, v) ∈ layout.scope
  own : ∀ e ∈ layout.scope,
    (layout.program.value e.2).OwnName ((p.signatureSource f).params.map (·.1))
      (Source.resultNames blocks)
  held : ∃ fn, p.function? f = some fn ∧ layout.program.function? f = some { fn with blocks := bs }
  blocks_nodup : bs.Nodup
  blocks_young : ∀ b ∈ bs, p.nodes.size ≤ b
  rows : List.Forall₂ (Row f layout) bs blocks

theorem forall₂_concat {α β : Type} {R : α → β → Prop} {as : List α} {bs : List β} {a : α} {b : β} :
    List.Forall₂ R (as ++ [a]) (bs ++ [b]) ↔ List.Forall₂ R as bs ∧ R a b := by
  rw [← List.forall₂_reverse_iff]
  simp [and_comm]

theorem forall₂_mem_left {α β : Type} {R : α → β → Prop} {as : List α} {bs : List β}
    (rows : List.Forall₂ R as bs) {a : α} (mem : a ∈ as) : ∃ b ∈ bs, R a b := by
  induction rows with
  | nil => cases mem
  | cons here _ ih =>
    rcases List.mem_cons.mp mem with rfl | later
    · exact ⟨_, List.mem_cons_self, here⟩
    · obtain ⟨b, mem, related⟩ := ih later
      exact ⟨b, List.mem_cons_of_mem _ mem, related⟩

/-- The result of a new operation is in scope from then on. -/
theorem scope_addOp (layout : Layout) (b : BlockId) (op : Source.Op) :
    (Layout.addOp b layout op).scope =
      ((Layout.addOp b layout op).program.op layout.program.nodes.size).result.toList.map
        (fun v => (((Layout.addOp b layout op).program.value v).name, v)) ++ layout.scope := by
  have number : layout.program.nodes.size = (layout.program.addOp b op.kind [] op.result).1 := rfl
  unfold Layout.addOp
  dsimp only
  split
  next v made =>
    rw [number, made]
    rfl
  next made =>
    rw [number, made]
    rfl

/-- What laying out one operation at the end of a block does. -/
structure Placed (f : FunctionId) (b : BlockId) (op : Source.Op) (layout more : Layout) : Prop where
  quiet : Quiet (fun i => i = b ∨ layout.program.nodes.size ≤ i) layout.program more.program
  block : ∀ {held}, layout.program.block? b = some held →
    more.program.block? b = some { held with ops := held.ops ++ [layout.program.nodes.size] }
  ready : more.program.Ready f layout.program.nodes.size op
  scope : ∃ new, more.scope = new ++ layout.scope ∧ new.map (·.1) = op.resultNames ∧
    more.program.Scoped f new ∧
    ∀ e ∈ new, ∀ params, (more.program.value e.2).OwnName params op.resultNames
  placed : more.placed = layout.placed ++ [(layout.program.nodes.size, op)]

theorem placed_addOp {layout : Layout} {b : BlockId} {held : Block}
    (known : layout.program.block? b = some held) (op : Source.Op) :
    Placed held.function b op layout (Layout.addOp b layout op) := by
  let p := layout.program
  obtain ⟨block, made, result⟩ := addOp_made p known op.kind op.result
  let r := (p.addOp b op.kind [] op.result).2
  have added : Quiet (fun i => i = b ∨ p.nodes.size ≤ i) p r :=
    quiet_addOp p known (.inl rfl) (.inr (Nat.le_refl _)) op.kind op.result
  have located : Quiet (fun i => i = b ∨
      p.nodes.size ≤ i) r (Layout.addOp b layout op).program := by
    refine quiet_modifyOp (.inr (Nat.le_refl _)) (fun _ => ⟨rfl, rfl⟩) (fun _ => rfl) ?_
    exact fun _ _ _ fits => ⟨fits.result, fits.operands, fits.callee⟩
  have final : (Layout.addOp b layout op).program.op? p.nodes.size = some
      { kind := op.kind, operands := [], result := op.result.map fun _ => p.nodes.size + 1,
        block := some b
        callee := .absent, targets := [], indices := [], location := op.location } := by
    show (r.modifyOp p.nodes.size _).op? p.nodes.size = _
    rw [op?_modifyOp, if_pos rfl, made]
    rfl
  have value (typed : String × Ty) (h : op.result = some typed) :
      (Layout.addOp b layout op).program.value? (p.nodes.size + 1) = some
        { name := typed.1, type := typed.2, origin := .result p.nodes.size held.function,
          uses := [] } :=
    (value?_modifyOp ..).trans (result typed h)
  refine ⟨added.trans located, fun {found} there => ?_, ?_, ?_, rfl⟩
  · obtain rfl := Option.some.inj (known.symm.trans there)
    exact (block?_modifyOp ..).trans block
  · refine ⟨_, b, final, rfl, (added.trans located).ownerOf? (ownerOf?_eq known), rfl, ?_⟩
    cases typed : op.result with
    | none => simp only [readOp, Source.Op.bare, typed, Option.map_none, calleeSource, List.map_nil]
    | some typed' =>
      simp only [readOp, Source.Op.bare, typed, Option.map_some, calleeSource, List.map_nil,
        typedName, value_eq (value typed' typed)]
  · rw [scope_addOp, op_eq final]
    cases typed : op.result with
    | none =>
      exact ⟨[], rfl, by rw [Source.Op.resultNames, typed]; rfl, List.forall_mem_nil _,
        List.forall_mem_nil _⟩
    | some typed' =>
      have known' := value typed' typed
      refine ⟨[(typed'.1, p.nodes.size + 1)], ?_, ?_, ?_, ?_⟩
      · simp only [Option.map_some, Option.toList_some, List.map_cons, List.map_nil,
          value_eq known']
      · rw [Source.Op.resultNames, typed]
        rfl
      · intro e he
        rw [List.mem_singleton.mp he]
        exact ⟨_, known', rfl, rfl⟩
      · intro e he params
        rw [List.mem_singleton.mp he, value_eq known', Source.Op.resultNames, typed]
        exact List.mem_singleton_self _

section Layout

variable {layout : Layout} {bs : List BlockId} {blocks : List Source.Block} (fitted : p.Fitted)
include fitted

theorem Laid.addOp {b : BlockId} {label : String} {ops : List Source.Op}
    (laid : Laid p f layout (bs ++ [b]) (blocks ++ [⟨label, ops⟩])) (op : Source.Op) :
    Laid p f (Layout.addOp b layout op) (bs ++ [b]) (blocks ++ [⟨label, ops ++ [op]⟩]) := by
  obtain ⟨rows, last⟩ := forall₂_concat.mp laid.rows
  obtain ⟨⟨found, known, rfl, name, opsPlaced⟩, names⟩ := last
  obtain ⟨fn, declared, function⟩ := laid.held
  have one := placed_addOp known op
  obtain ⟨new, scope, newNames, newScoped, newOwn⟩ := one.scope
  have more : layout.scope ⊆ (Layout.addOp b layout op).scope := by
    rw [scope]
    exact List.subset_append_right _ _
  have placedMore : layout.placed ⊆ (Layout.addOp b layout op).placed := by
    rw [one.placed]
    exact List.subset_append_left _ _
  have young : p.nodes.size ≤ b :=
    laid.blocks_young b (List.mem_append_right _ (List.mem_singleton_self b))
  have older {o : OpId} {written : Source.Op}
      (ready : layout.program.Ready found.function o written) :
      o < layout.program.nodes.size ∧ ¬ (o = b ∨ layout.program.nodes.size ≤ o) := by
    obtain ⟨made, _, there, _⟩ := ready
    have less := lt_size_of_op? _ there
    exact ⟨less, not_eq_or_le less (ne_of_op?_of_block? there known)⟩
  refine
    { quiet := ?_, inScope := ?_, distinct := ?_, young := ?_, ready := ?_, written := ?_,
      params := ?_, own := ?_
      held := ?_, blocks_nodup := laid.blocks_nodup, blocks_young := laid.blocks_young, rows := ?_ }
  · refine laid.quiet.trans (one.quiet.weaken fun h => .inr ?_)
    rcases h with rfl | past
    · exact young
    · exact Nat.le_trans laid.quiet.size past
  · rw [scope]
    intro e he
    rcases List.mem_append.mp he with h | h
    · exact newScoped e h
    · exact laid.inScope.mono one.quiet.toKeeps e h
  · rw [one.placed, List.map_append]
    refine List.nodup_append.mpr ⟨laid.distinct, List.pairwise_singleton _ _, ?_⟩
    intro o ho o' ho' same
    obtain ⟨e, he, rfl⟩ := List.mem_map.mp ho
    have less := (older (laid.ready e he)).1
    rw [same, List.mem_singleton.mp ho'] at less
    exact Nat.lt_irrefl _ less
  · rw [one.placed]
    intro e he
    rcases List.mem_append.mp he with h | h
    · exact laid.young e h
    · rw [List.mem_singleton.mp h]
      exact laid.quiet.size
  · rw [one.placed]
    intro e he
    rcases List.mem_append.mp he with h | h
    · exact (laid.ready e h).mono one.quiet.toKeeps (laid.quiet.fitted fitted)
        (older (laid.ready e h)).2
    · rw [List.mem_singleton.mp h]
      exact one.ready
  · rw [one.placed]
    intro e he
    rcases List.mem_append.mp he with h | h
    · obtain ⟨block, hb, mem⟩ := laid.written e h
      rcases List.mem_append.mp hb with earlier | here
      · exact ⟨block, List.mem_append_left _ earlier, mem⟩
      · rw [List.mem_singleton.mp here] at mem
        exact ⟨_, List.mem_append_right _ (List.mem_singleton_self _), List.mem_append_left _ mem⟩
    · rw [List.mem_singleton.mp h]
      exact ⟨_, List.mem_append_right _ (List.mem_singleton_self _),
        List.mem_append_right _ (List.mem_singleton_self _)⟩
  · exact fun v hv => more (laid.params v hv)
  · rw [scope, Source.resultNames_concat, List.flatMap_singleton]
    intro e he
    rcases List.mem_append.mp he with h | h
    · exact (newOwn e h _).mono rfl rfl (List.subset_append_right _ _)
    · obtain ⟨x, there, _⟩ := laid.inScope e h
      obtain ⟨name, _, origin⟩ := one.quiet.value there
      exact (laid.own e h).mono name origin (List.subset_append_left _ _)
  · refine ⟨fn, declared, one.quiet.sameFunction ?_ function⟩
    exact not_eq_or_le (lt_size_of_function? _ function)
      (ne_of_block?_of_function? known function).symm
  · refine forall₂_concat.mpr ⟨?_, ⟨⟨_, one.block known, rfl, name, ?_⟩, ?_⟩⟩
    · have others : ∀ b' ∈ bs, b' ≠ b := by
        intro b' hb' same
        exact (List.nodup_append.mp laid.blocks_nodup).2.2 b' hb' b (List.mem_singleton_self b) same
      refine ((List.forall₂_and_left bs blocks).mpr ⟨others, rows⟩).imp fun b' block h => ?_
      obtain ⟨other, row⟩ := h
      obtain ⟨_, there, _⟩ := row.held
      exact row.mono one.quiet.toKeeps more placedMore
        (not_eq_or_le (lt_size_of_block? _ there) other)
    · refine forall₂_concat.mpr ⟨opsPlaced.imp fun _ _ mem => placedMore mem, ?_⟩
      rw [one.placed]
      exact List.mem_append_right _ (List.mem_singleton_self _)
    · intro op' hop name hn
      rcases List.mem_append.mp hop with h | h
      · exact List.map_subset _ more (names op' h name hn)
      · rw [List.mem_singleton.mp h, ← newNames] at hn
        rw [scope, List.map_append]
        exact List.mem_append_left _ hn

theorem Laid.addOps (more : List Source.Op) {b : BlockId} {label : String} {ops : List Source.Op}
    (laid : Laid p f layout (bs ++ [b]) (blocks ++ [⟨label, ops⟩])) :
    Laid p f (more.foldl (Layout.addOp b) layout) (bs ++ [b])
    (blocks ++ [⟨label, ops ++ more⟩]) := by
  induction more generalizing layout ops with
  | nil =>
    rw [List.append_nil]
    exact laid
  | cons op more ih =>
    have step := ih (laid.addOp fitted op)
    rw [List.append_assoc] at step
    exact step

/-- A block is laid out without operations first. -/
theorem Laid.startBlock (laid : Laid p f layout bs blocks) (label : String) :
    Laid p f { layout with program := (layout.program.addBlock f label).2 }
    (bs ++ [layout.program.nodes.size])
      (blocks ++ [⟨label, []⟩]) := by
  have quiet : Quiet (· = f) layout.program (layout.program.addBlock f label).2 := by
    refine quiet_addBlock layout.program ?_ label
    exact rfl
  obtain ⟨fn, declared, function⟩ := laid.held
  refine
    { quiet := laid.quiet.trans (quiet.weaken .inl), inScope := laid.inScope.mono quiet.toKeeps
      distinct := laid.distinct, young := laid.young, ready := ?_, written := ?_
      params := laid.params, own := ?_, held := ?_, blocks_nodup := ?_, blocks_young := ?_
      rows := ?_ }
  · intro e he
    have ready := laid.ready e he
    obtain ⟨_, _, there, _⟩ := laid.ready e he
    exact ready.mono quiet.toKeeps (laid.quiet.fitted fitted)
      (ne_of_op?_of_function? there function)
  · intro e he
    obtain ⟨block, hb, mem⟩ := laid.written e he
    exact ⟨block, List.mem_append_left _ hb, mem⟩
  · intro e he
    obtain ⟨x, there, _⟩ := laid.inScope e he
    obtain ⟨name, _, origin⟩ := quiet.value there
    refine (laid.own e he).mono name origin ?_
    rw [Source.resultNames, Source.resultNames, List.flatMap_append]
    exact List.subset_append_left _ _
  · refine ⟨fn, declared, ?_⟩
    simp only [function?_addBlock, if_true, function, Option.map_some]
  · refine List.nodup_append.mpr ⟨laid.blocks_nodup, List.pairwise_singleton _ _, ?_⟩
    intro b hb b' hb' same
    obtain ⟨_, _, ⟨_, there, _⟩, _⟩ := forall₂_mem_left laid.rows hb
    have less := lt_size_of_block? _ there
    rw [same, List.mem_singleton.mp hb'] at less
    exact Nat.lt_irrefl _ less
  · intro b hb
    rcases List.mem_append.mp hb with h | h
    · exact laid.blocks_young b h
    · rw [List.mem_singleton.mp h]
      exact laid.quiet.size
  · refine forall₂_concat.mpr ⟨laid.rows.imp fun b written row => ?_, ?_, List.forall_mem_nil _⟩
    · have other : b ≠ f := by
        obtain ⟨⟨_, there, _⟩, _⟩ := row
        exact ne_of_block?_of_function? there function
      refine Row.mono quiet.toKeeps ?_ ?_ other row
      · exact List.Subset.refl layout.scope
      · exact List.Subset.refl layout.placed
    · exact ⟨emptyBlock f label, by simp only [block?_addBlock, if_true], rfl, rfl, .nil⟩

theorem Laid.addBlock (laid : Laid p f layout bs blocks) (block : Source.Block) :
    Laid p f (Layout.addBlock f layout block) (bs ++ [layout.program.nodes.size])
    (blocks ++ [block]) := by
  have whole := (laid.startBlock fitted block.label).addOps fitted block.ops
  rw [List.nil_append] at whole
  exact whole

/-- The blocks of a text are laid out one after the other. -/
theorem Laid.addBlocks (more : List Source.Block) (laid : Laid p f layout bs blocks) :
    ∃ bs', Laid p f (more.foldl (Layout.addBlock f) layout) bs' (blocks ++ more) := by
  induction more generalizing layout bs blocks with
  | nil =>
    rw [List.append_nil]
    exact ⟨bs, laid⟩
  | cons block more ih =>
    obtain ⟨bs', final⟩ := ih (laid.addBlock fitted block)
    rw [List.append_assoc] at final
    exact ⟨bs', final⟩

omit layout bs blocks in
/-- The layout of a body starts with the parameters in scope. -/
theorem laid_start {fn : Function} (known : p.function? f = some fn) (declared : fn.blocks = []) :
    Laid p f { program := p,
               scope := ((p.function f).params.map fun v => ((p.value v).name, v)).reverse,
               placed := [] }
      [] [] := by
  refine
    { quiet := .refl _ p, inScope := ?_, distinct := List.nodup_nil, young := List.forall_mem_nil _
      ready := List.forall_mem_nil _, written := List.forall_mem_nil _, params := ?_, own := ?_
      held := ⟨fn, known, by rw [known, ← declared]⟩, blocks_nodup := List.nodup_nil
      blocks_young := List.forall_mem_nil _, rows := .nil }
  · intro e he
    obtain ⟨v, hv, rfl⟩ := List.mem_map.mp (List.mem_reverse.mp he)
    rw [function_eq known] at hv
    obtain ⟨x, there, origin⟩ := Option.map_eq_some_iff.mp ((fitted.params known).2 v hv)
    exact ⟨x, there, by rw [value_eq there], by rw [origin]; rfl⟩
  · exact fun v hv => List.mem_reverse.mpr (List.mem_map.mpr ⟨v, hv, rfl⟩)
  · intro e he
    obtain ⟨v, hv, rfl⟩ := List.mem_map.mp (List.mem_reverse.mp he)
    have named : (p.value v).name ∈ (p.signatureSource f).params.map (·.1) :=
      List.mem_map.mpr ⟨_, List.mem_map_of_mem hv, rfl⟩
    rw [function_eq known] at hv
    obtain ⟨x, there, origin⟩ := Option.map_eq_some_iff.mp ((fitted.params known).2 v hv)
    rw [value_eq there] at named ⊢
    rw [Value.OwnName, origin]
    exact named

/-! ## Connecting the operations of a body -/

omit fitted in
/-- The names of the parameters and results are in scope. -/
theorem Laid.covers (laid : Laid p f layout bs blocks) {name : String}
    (h : name ∈ (p.signatureSource f).params.map (·.1) ∨ name ∈ Source.resultNames blocks) :
    name ∈ layout.scope.map (·.1) := by
  rcases h with param | result
  · simp only [signatureSource, List.map_map, List.mem_map, Function.comp_apply, typedName] at param
    obtain ⟨v, hv, rfl⟩ := param
    exact List.mem_map.mpr ⟨_, laid.params v hv, rfl⟩
  · obtain ⟨block, hb, given⟩ := List.mem_flatMap.mp result
    obtain ⟨op, hop, given⟩ := List.mem_flatMap.mp given
    obtain ⟨b, _, row⟩ := forall₂_mem_left laid.rows.flip hb
    exact row.names op hop name given

omit fitted in
/-- A name that the text binds is in scope, or a global's. -/
theorem Laid.bound (laid : Laid p f layout bs blocks) {name : String}
    (h : name ∈ (p.signatureSource f).params.map (·.1) ∨ name ∈ Source.resultNames blocks ∨
      (p.globals.get? name).isSome) :
    layout.program.Bound layout.scope name := by
  rcases h with param | result | known
  · exact .inl (laid.covers (.inl param))
  · exact .inl (laid.covers (.inr result))
  · exact .inr (laid.quiet.globals known)

omit fitted in
/-- What is seen in the scope of a body is what the text resolves. -/
theorem Laid.resolves (laid : Laid p f layout bs blocks) (keeps : Keeps changing layout.program q)
    {v : ValueId} (seen : q.Sees layout.scope v) :
    (q.value v).Resolved ((p.signatureSource f).params.map (·.1)) (Source.resultNames blocks) := by
  rcases seen with literal | here | ⟨origin, outside⟩
  · exact .inl literal
  · obtain ⟨x, there, _⟩ := laid.inScope _ here
    obtain ⟨name, _, origin⟩ := keeps.value there
    exact .inr (.inl ((laid.own _ here).mono name origin (List.Subset.refl _)))
  · exact .inr (.inr ⟨origin, fun h => outside (laid.covers (.inl h)),
      fun h => outside (laid.covers (.inr h))⟩)

omit layout fitted in
/-- A body that reads back as its text, before its blocks are linked. -/
structure Connected (p : Program) (f : FunctionId) (q : Program) (bs : List BlockId)
    (blocks : List Source.Block) :
    Prop where
  keeps : Keeps (fun i => i = f ∨ p.nodes.size ≤ i) p q
  sane : q.Sane
  once : q.Once
  held : ∃ fn, p.function? f = some fn ∧ q.function? f = some { fn with blocks := bs }
  text : bs.map q.blockSource = blocks
  nodup : bs.Nodup
  young : ∀ b ∈ bs, p.nodes.size ≤ b
  resolved : ∀ b ∈ bs, ∀ o ∈ (q.block b).ops, ∀ v ∈ (q.op o).operands,
    (q.value v).Resolved ((p.signatureSource f).params.map (·.1)) (Source.resultNames blocks)
  unlinked : ∀ b ∈ bs, q.ownerOf? b = some f ∧ (q.block b).successors = []

omit fitted in
theorem Laid.connected (laid : Laid p f layout bs blocks) (sane : p.Sane) (once : p.Once)
    (bound : ∀ block ∈ blocks, ∀ op ∈ block.ops, ∀ name ∈ op.names,
      name ∈ (p.signatureSource f).params.map (·.1) ∨ name ∈ Source.resultNames blocks ∨
      (p.globals.get? name).isSome) :
    Connected p f (layout.placed.foldl (wireOp layout.scope) layout.program) bs blocks := by
  have state : layout.program.Connecting f layout.scope :=
    ⟨laid.quiet.sane sane, laid.quiet.once once, laid.inScope⟩
  obtain ⟨keeps, final, reads⟩ :=
    state.wireOps layout.placed laid.distinct laid.ready fun e he name hn => by
    obtain ⟨block, hb, hop⟩ := laid.written e he
    exact laid.bound (bound block hb e.2 hop name hn)
  generalize layout.placed.foldl (wireOp layout.scope) layout.program = q at keeps final reads
  obtain ⟨fn, declared, function⟩ := laid.held
  -- only operations have been connected, so that the function and its blocks are as laid out
  have placedOp {i : Nat} (h : i ∈ layout.placed.map (·.1)) :
      ∃ op, layout.program.op? i = some op := by
    obtain ⟨e, he, rfl⟩ := List.mem_map.mp h
    obtain ⟨made, _, there, _⟩ := laid.ready e he
    exact ⟨made, there⟩
  have keptFunction : f ∉ layout.placed.map (·.1) := fun h => by
    obtain ⟨op, there⟩ := placedOp h
    exact ne_of_op?_of_function? there function rfl
  have keptBlock {b : BlockId} {block : Block} (there : layout.program.block? b = some block) :
      b ∉ layout.placed.map (·.1) := fun h => by
    obtain ⟨op, there'⟩ := placedOp h
    exact ne_of_op?_of_block? there' there rfl
  refine
    { keeps := laid.quiet.toKeeps.trans (keeps.weaken fun h => ?_), sane := final.sane,
      once := final.once
      held := ⟨fn, declared, keeps.sameFunction keptFunction function⟩, text := ?_, nodup :=
        laid.blocks_nodup
      young := laid.blocks_young, resolved := fun b hb o ho v hv => ?_, unlinked := fun b hb => ?_ }
  · obtain ⟨e, he, rfl⟩ := List.mem_map.mp h
    exact .inr (laid.young e he)
  · refine List.forall₂_eq_eq_eq ▸ List.forall₂_map_left_iff.mpr
      (laid.rows.imp fun b block row => ?_)
    obtain ⟨⟨found, there, _, label, ops⟩, _⟩ := row
    have texts : found.ops.map q.opSource = block.ops := by
      refine List.forall₂_eq_eq_eq ▸ List.forall₂_map_left_iff.mpr (ops.imp fun o op mem => ?_)
      exact (reads (o, op) mem).text
    simp only [blockSource, block_eq (keeps.sameBlock (keptBlock there) there), label, texts]
  · obtain ⟨_, _, ⟨found, there, _, _, ops⟩, _⟩ := forall₂_mem_left laid.rows hb
    rw [block_eq (keeps.sameBlock (keptBlock there) there)] at ho
    obtain ⟨op, _, mem⟩ := forall₂_mem_left ops ho
    exact laid.resolves keeps ((reads (o, op) mem).seen v hv)
  · obtain ⟨_, _, ⟨found, there, owner, _⟩, _⟩ := forall₂_mem_left laid.rows hb
    have there' := keeps.sameBlock (keptBlock there) there
    refine ⟨by rw [ownerOf?_eq there', owner], ?_⟩
    rw [block_eq there', ← block_eq there, successors_eq, laid.quiet.wiring,
      node_of_size_le p (laid.blocks_young b hb)]
    rfl

end Layout

end Program
end Relock
