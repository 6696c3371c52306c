import Relock.Proofs.Program.Presents
import Relock.Proofs.Program.WellFormed

/-!
# Program order is the order of numbers

The operations of a loaded program, function by function and block by block, have increasing
numbers. Functions are numbered when they are declared and bodies afterwards, item by item; a body
numbers its operations before it connects them, so that the functions it mentions, which are
declared in between, stand at the end of the table and have no operations. Making the body of an
item thus adds the operations of that body at the end of the program.
-/

namespace Relock.Program

variable {p q : Program} {f : FunctionId}

/-! ## The operations of a body -/

theorem opsOf_congr (blocks : (q.function f).blocks = (p.function f).blocks)
    (ops : ∀ b ∈ (p.function f).blocks, (q.block b).ops = (p.block b).ops) :
    q.opsOf f = p.opsOf f := by
  rw [opsOf, opsOf, blocks]
  exact List.flatMap_congr ops

theorem SameShape.opsOf (same : SameShape p q) (f : FunctionId) : q.opsOf f = p.opsOf f := by
  apply opsOf_congr (same.blocks f)
  intro b _
  rw [Program.block, same.sameBlock, Program.block]

theorem Relinked.opsOf (same : Relinked p q) (f : FunctionId) : q.opsOf f = p.opsOf f := by
  apply opsOf_congr
  · rw [Program.function, same.function?, Program.function]
  · intro b _
    exact (same.block b).2

/-- The function of a layout has the operations that were placed, in the order of their numbers. -/
structure Layout.Ordered (f : FunctionId) (layout : Layout) : Prop where
  ops : layout.program.opsOf f = layout.placed.map (·.1)
  increasing : (layout.placed.map (·.1)).Pairwise (· < ·)

section Layout

variable {layout : Layout} {bs : List BlockId} {blocks : List Source.Block}

/-- An operation is placed after those of its function, and with a higher number. -/
theorem Laid.ordered_addOp {b : BlockId} {label : String} {ops : List Source.Op}
    (laid : Laid p f layout (bs ++ [b]) (blocks ++ [⟨label, ops⟩])) (ordered : layout.Ordered f)
    (op : Source.Op) :
    (Layout.addOp b layout op).Ordered f := by
  obtain ⟨rows, ⟨found, known, rfl, _⟩, _⟩ := forall₂_concat.mp laid.rows
  obtain ⟨fn, _, function⟩ := laid.held
  have one := placed_addOp known op
  have held : (layout.program.function found.function).blocks = bs ++ [b] := by
    rw [function_eq function]
  have others : ∀ a ∈ bs, ((Layout.addOp b layout op).program.block a).ops =
      (layout.program.block a).ops := by
    intro a mem
    obtain ⟨_, _, ⟨block, there, _⟩, _⟩ := forall₂_mem_left rows mem
    have other : a ≠ b := fun same =>
      (List.nodup_append.mp laid.blocks_nodup).2.2 a mem b (List.mem_singleton_self b) same
    rw [block_eq there,
      block_eq (one.quiet.sameBlock (not_eq_or_le (lt_size_of_block? _ there) other) there)]
  have whole : (Layout.addOp b layout op).program.opsOf found.function =
      layout.program.opsOf found.function ++ [layout.program.nodes.size] := by
    rw [opsOf, opsOf, blocks_layoutOp, held, List.flatMap_append, List.flatMap_append,
      List.flatMap_singleton, List.flatMap_singleton, List.flatMap_congr others, block_eq known,
      block_eq (one.block known), List.append_assoc]
  constructor
  · rw [whole, one.placed, ordered.ops, List.map_append]
    rfl
  · rw [one.placed, List.map_append]
    apply List.pairwise_append.mpr
    refine ⟨ordered.increasing, List.pairwise_singleton _ _, ?_⟩
    intro o mem o' last
    obtain ⟨e, placed, rfl⟩ := List.mem_map.mp mem
    obtain ⟨_, _, there, _⟩ := laid.ready e placed
    rw [List.mem_singleton.mp last]
    exact lt_size_of_op? _ there

variable (fitted : p.Fitted)
include fitted

theorem Laid.ordered_addOps (more : List Source.Op) {b : BlockId} {label : String}
    {ops : List Source.Op} (laid : Laid p f layout (bs ++ [b]) (blocks ++ [⟨label, ops⟩]))
    (ordered : layout.Ordered f) :
    (more.foldl (Layout.addOp b) layout).Ordered f := by
  induction more generalizing layout ops with
  | nil => exact ordered
  | cons op more ih => exact ih (laid.addOp fitted op) (laid.ordered_addOp ordered op)

theorem Laid.ordered_addBlock (laid : Laid p f layout bs blocks) (ordered : layout.Ordered f)
    (block : Source.Block) :
    (Layout.addBlock f layout block).Ordered f := by
  obtain ⟨fn, _, function⟩ := laid.held
  let made := (layout.program.addBlock f block.label).2
  have held : (layout.program.function f).blocks = bs := by rw [function_eq function]
  have held' : (made.function f).blocks = bs ++ [layout.program.nodes.size] := by
    rw [Program.function, function?_addBlock, if_pos rfl, function]
    rfl
  have others : ∀ b ∈ bs, (made.block b).ops = (layout.program.block b).ops := by
    intro b mem
    obtain ⟨_, _, ⟨_, there, _⟩, _⟩ := forall₂_mem_left laid.rows mem
    rw [Program.block, block?_addBlock, if_neg (Nat.ne_of_lt (lt_size_of_block? _ there)),
      Program.block]
  have last : (made.block layout.program.nodes.size).ops = [] := by
    rw [Program.block, block?_addBlock, if_pos rfl]
    rfl
  -- a block without operations adds none
  have same : made.opsOf f = layout.program.opsOf f := by
    rw [opsOf, opsOf, held, held', List.flatMap_append, List.flatMap_singleton, last,
      List.append_nil]
    exact List.flatMap_congr others
  exact (laid.startBlock fitted block.label).ordered_addOps fitted block.ops
    ⟨same.trans ordered.ops, ordered.increasing⟩

theorem Laid.ordered_addBlocks (more : List Source.Block) (laid : Laid p f layout bs blocks)
    (ordered : layout.Ordered f) : (more.foldl (Layout.addBlock f) layout).Ordered f := by
  induction more generalizing layout bs blocks with
  | nil => exact ordered
  | cons block more ih =>
    exact ih (laid.addBlock fitted block) (laid.ordered_addBlock fitted ordered block)

end Layout

/-- A new body has increasing numbers, all of them new. -/
theorem opsOf_addBody (fitted : p.Fitted) {fn : Function}
    (known : p.function? f = some fn) (empty : fn.blocks = []) (blocks : List Source.Block) :
    ((p.addBody f blocks).opsOf f).Pairwise (· < ·) ∧
    ∀ o ∈ (p.addBody f blocks).opsOf f, p.nodes.size ≤ o := by
  have start := laid_start fitted known empty
  have none : p.opsOf f = [] := by
    rw [opsOf, function_eq known, empty]
    rfl
  have ordered := start.ordered_addBlocks fitted blocks ⟨none, List.Pairwise.nil⟩
  obtain ⟨_, laid⟩ := start.addBlocks fitted blocks
  let layout := blocks.foldl (Layout.addBlock f)
    { program := p, scope := ((p.function f).params.map fun v => ((p.value v).name, v)).reverse,
      placed := [] }
  change layout.Ordered f at ordered
  have wired := SameShape.foldl (sameShape_wireOp layout.scope) layout.placed layout.program
  have same : (p.addBody f blocks).opsOf f = layout.placed.map (·.1) :=
    ((relinked_linkBlocks _ _).opsOf f).trans ((wired.opsOf f).trans ordered.ops)
  rw [same]
  refine ⟨ordered.increasing, ?_⟩
  intro o mem
  obtain ⟨e, placed, rfl⟩ := List.mem_map.mp mem
  exact laid.young e placed

/-! ## The table of functions -/

theorem functions_addFunction_of_none {name : String} (absent : p.functions.get? name = none) :
    (p.addFunction name).2.functions = p.functions ++ [(name, p.nodes.size)] := by
  rw [addFunction, absent]
  exact Keyed.set_of_get?_eq_none absent _

/-- A function that is mentioned stands at the end of the table, if not in it. -/
theorem functions_addFunction (p : Program) (name : String) :
    p.functions <+: (p.addFunction name).2.functions := by
  cases found : p.functions.get? name with
  | some f => simp only [addFunction, found, List.prefix_refl]
  | none =>
    rw [functions_addFunction_of_none found]
    exact List.prefix_append _ _

section Operands

variable (scope : List (String × ValueId))

theorem functions_operandValues (p : Program) (operands : List Source.Operand) :
    p.functions <+: (operandValues scope p operands).2.functions := by
  have one (p : Program) (operand : Source.Operand) :
      p.functions <+: (operandValue scope p operand).2.functions := by
    cases operand with
    | constant n => exact List.prefix_refl _
    | value name => exact List.prefix_refl _
    | function name => exact functions_addFunction p name
  induction operands generalizing p with
  | nil => exact List.prefix_refl _
  | cons operand operands ih => exact (one p operand).trans (ih _)

theorem functions_wireOp (p : Program) (placed : OpId × Source.Op) :
    p.functions <+: (wireOp scope p placed).functions := by
  obtain ⟨o, op⟩ := placed
  have callee : p.functions <+: (calleeValue scope p op.callee).2.functions := by
    rcases op.callee with _ | name | name
    · exact List.prefix_refl _
    · exact functions_addFunction p name
    · exact List.prefix_refl _
  have attached (vs : List ValueId) (q : Program) : SameTables q (q.attach o vs) := by
    apply SameTables.foldl
    intro q v
    exact ⟨rfl, rfl, rfl, rfl⟩
  have whole : (wireOp scope p (o, op)).functions =
      (operandValues scope (calleeValue scope p op.callee).2 op.operands).2.functions :=
        (attached _ _).functions
  rw [whole]
  exact callee.trans (functions_operandValues scope _ op.operands)

theorem functions_wireOps (placed : List (OpId × Source.Op)) (p : Program) :
    p.functions <+: (placed.foldl (wireOp scope) p).functions := by
  induction placed generalizing p with
  | nil => exact List.prefix_refl _
  | cons first placed ih => exact (functions_wireOp scope p first).trans (ih _)

end Operands

theorem functions_addBody (p : Program) (f : FunctionId) (blocks : List Source.Block) :
    p.functions <+: (p.addBody f blocks).functions := by
  unfold addBody
  rw [(sameTables_linkBlocks _ _).functions]
  have laid := (laysOut_addBlocks (f := f) blocks
    { program := p, scope := ((p.function f).params.map fun v => ((p.value v).name, v)).reverse,
      placed := [] }).tables
  rw [← laid.functions]
  exact functions_wireOps _ _ _

section Items

variable {items done rest : List (Source.Item Source.Block)} {item : Source.Item Source.Block}

/-- The function of an item is put at the end of the table. -/
theorem keys_declareItem (absent : ∀ name ∈ item.functionNames, p.functions.get? name = none) :
    (p.declareItem item).functions.keys = p.functions.keys ++ item.functionNames := by
  cases item with
  | struct name fields => exact (List.append_nil _).symm
  | global name type => exact (List.append_nil _).symm
  | function signature blocks =>
    rw [(sameTables_declareFunction p signature blocks).functions,
      functions_addFunction_of_none (absent signature.name List.mem_cons_self), Keyed.keys,
      List.map_append]
    rfl

theorem keys_declareItems (more : List (Source.Item Source.Block))
    (table : p.functions.keys = items.flatMap Source.Item.functionNames)
    (distinct : ((items ++ more).flatMap Source.Item.functionNames).Nodup) :
    (more.foldl declareItem p).functions.keys =
      (items ++ more).flatMap Source.Item.functionNames := by
  induction more generalizing p items with
  | nil =>
    rw [List.append_nil]
    exact table
  | cons item more ih =>
    have row : items ++ item :: more = (items ++ [item]) ++ more := by
      rw [List.append_assoc, List.singleton_append]
    have absent : ∀ name ∈ item.functionNames, p.functions.get? name = none := by
      intro name mem
      rw [List.flatMap_append, List.flatMap_cons] at distinct
      by_contra known
      obtain ⟨f, found⟩ := Option.ne_none_iff_exists'.mp known
      have old : name ∈ p.functions.keys := List.mem_map_of_mem (Keyed.mem_of_get? found)
      rw [table] at old
      exact (List.nodup_append.mp distinct).2.2 name old name (List.mem_append_left _ mem) rfl
    rw [row] at distinct ⊢
    apply ih _ distinct
    rw [keys_declareItem absent, table, List.flatMap_append, List.flatMap_singleton]

/-! ## The operations of the program -/

/-- A function has no blocks until the body of its item has been made. -/
theorem Building.blocks_eq_nil (state : p.Building done rest) {e : String × FunctionId}
    (mem : e ∈ p.functions) (other : e.1 ∉ done.flatMap Source.Item.functionNames) :
    (p.function e.2).blocks = [] := by
  by_contra filled
  obtain ⟨signature, blocks, made, declares⟩ := state.bodies filled
  obtain ⟨fn, known, name⟩ := state.sane.named.functions mem
  have same : signature.name = e.1 := by
    rw [← declares.text, ← name, ← function_eq known]
    rfl
  exact other (List.mem_flatMap.mpr ⟨_, made, same ▸ List.mem_cons_self⟩)

/-- While bodies are made, the operations are those of the functions at the start of the table. -/
theorem Building.allOps_eq_of_append (state : p.Building done rest)
    {front back : List (String × FunctionId)}
    (table : p.functions = front ++ back)
    (names : front.map (·.1) = done.flatMap Source.Item.functionNames) :
    p.allOps = front.flatMap fun e => p.opsOf e.2 := by
  have later : back.flatMap (fun e => p.opsOf e.2) = [] := by
    apply List.flatMap_eq_nil_iff.mpr
    intro e mem
    have held : e ∈ p.functions := table ▸ List.mem_append_right _ mem
    have other : e.1 ∉ done.flatMap Source.Item.functionNames := by
      intro old
      have keys := state.sane.named.keys
      rw [Keyed.keys, table, List.map_append, names] at keys
      exact (List.nodup_append.mp keys).2.2 e.1 old e.1 (List.mem_map_of_mem mem) rfl
    rw [opsOf, state.blocks_eq_nil held other]
    rfl
  rw [allOps_eq_flatMap_opsOf, functionIds, Keyed.entries, List.flatMap_map, table,
    List.flatMap_append, later, List.append_nil]

/-- Making a body adds its operations at the end of the program. -/
theorem Building.allOps_addBody {signature : Source.Signature} {blocks : List Source.Block}
    (state : p.Building done (.function signature blocks :: rest))
    (declares : p.Declares signature f)
    (next : (p.addBody f blocks).Building (done ++ [.function signature blocks]) rest)
    (others : ∀ {g}, g ≠ f → (p.addBody f blocks).opsOf g = p.opsOf g)
    (table : (done ++ .function signature blocks :: rest).flatMap Source.Item.functionNames <+:
      p.functions.keys) :
    (p.addBody f blocks).allOps = p.allOps ++ (p.addBody f blocks).opsOf f := by
  -- the function stands right after those whose bodies have been made
  have split : ∃ front back, p.functions = front ++ (signature.name, f) :: back ∧
      front.map (·.1) = done.flatMap Source.Item.functionNames := by
    obtain ⟨mentioned, keys⟩ := table
    rw [List.flatMap_append, List.flatMap_cons, List.append_assoc] at keys
    obtain ⟨front, tail, whole, first, second⟩ := List.map_eq_append_iff.mp keys.symm
    obtain ⟨⟨name, g⟩, back, rfl, rfl, _⟩ := List.map_eq_cons_iff.mp second
    have mem : (signature.name, g) ∈ p.functions :=
      whole ▸ List.mem_append_right _ List.mem_cons_self
    cases (Keyed.get?_of_mem state.sane.named.keys mem).symm.trans declares.named
    exact ⟨front, back, whole, first⟩
  obtain ⟨front, back, whole, names⟩ := split
  obtain ⟨new, grown⟩ := functions_addBody p f blocks
  have after : (p.addBody f blocks).functions = (front ++ [(signature.name, f)]) ++
      (back ++ new) := by
    rw [← grown, whole, List.append_assoc, List.append_assoc, List.singleton_append,
      List.cons_append]
  have older : front.flatMap (fun e => (p.addBody f blocks).opsOf e.2) =
      front.flatMap fun e => p.opsOf e.2 := by
    apply List.flatMap_congr
    intro e mem
    apply others
    intro same
    have distinct := state.finished.shape.registered.distinct
    rw [Keyed.entries, whole, List.map_append, List.map_cons] at distinct
    exact (List.nodup_append.mp distinct).2.2 e.2 (List.mem_map_of_mem mem) f
      List.mem_cons_self same
  rw [next.allOps_eq_of_append after, state.allOps_eq_of_append whole names, List.flatMap_append,
    List.flatMap_singleton, older]
  rw [List.map_append, names, List.flatMap_append]
  rfl

/-- The body of an item leaves the operations of the functions of other items. -/
theorem Building.opsOf_addItemBody (state : p.Building done rest)
    (keeps : Keeps (fun i => (∃ name ∈ item.functionNames, p.functions.get? name = some i) ∨
      p.nodes.size ≤ i) p q)
    (blocks : (q.function f).blocks = (p.function f).blocks) : q.opsOf f = p.opsOf f := by
  apply opsOf_congr blocks
  intro b held
  obtain ⟨found, there, _⟩ := state.finished.shape.block_of_mem held
  have kept : ¬ ((∃ name ∈ item.functionNames, p.functions.get? name = some b) ∨
      p.nodes.size ≤ b) := by
    rintro (⟨name, _, named⟩ | past)
    · obtain ⟨fn, known, _⟩ := state.sane.named.functions (Keyed.mem_of_get? named)
      exact ne_of_block?_of_function? there known rfl
    · exact Nat.not_le_of_lt (lt_size_of_block? p there) past
  rw [block_eq there, block_eq (keeps.sameBlock kept there)]

/-- What holds of the numbers when the bodies of some items have been made. -/
structure Numbered (p : Program) (items : List (Source.Item Source.Block)) : Prop where
  table : items.flatMap Source.Item.functionNames <+: p.functions.keys
  increasing : p.allOps.Pairwise (· < ·)

/-- The body of an item has higher numbers than those before it. -/
theorem Numbered.addItemBody (numbered : p.Numbered (done ++ item :: rest))
    (state : p.Building done (item :: rest))
    (next : (p.addItemBody item).Building (done ++ [item]) rest)
    (keeps : Keeps (fun i => (∃ name ∈ item.functionNames, p.functions.get? name = some i) ∨
      p.nodes.size ≤ i) p (p.addItemBody item)) :
    (p.addItemBody item).Numbered (done ++ item :: rest) := by
  match item with
  | .struct _ _ => exact numbered
  | .global _ _ => exact numbered
  | .function signature [] => exact numbered
  | .function signature (block :: blocks) =>
    obtain ⟨f, declares, empty⟩ := state.waiting List.mem_cons_self
    obtain ⟨fn, known⟩ := declares.known state.sane.named
    have whole : p.addItemBody (.function signature (block :: blocks)) =
        p.addBody f (block :: blocks) := by
      simp only [Program.addItemBody, declares.named]
    rw [whole] at next keeps ⊢
    have others {g : FunctionId} (other : g ≠ f) :
        (p.addBody f (block :: blocks)).opsOf g = p.opsOf g :=
      state.opsOf_addItemBody keeps (blocks_addBody p _ other)
    obtain ⟨increasing, new⟩ :=
      opsOf_addBody state.sane.fitted known (function_eq known ▸ empty) (block :: blocks)
    constructor
    · exact numbered.table.trans ((functions_addBody p f (block :: blocks)).map _)
    · rw [state.allOps_addBody declares next others numbered.table]
      apply List.pairwise_append.mpr
      refine ⟨numbered.increasing, increasing, ?_⟩
      intro o old o' here
      obtain ⟨op, there⟩ := op?_of_mem_allOps state.finished.shape old
      exact Nat.lt_of_lt_of_le (lt_size_of_op? p there) (new o' here)

theorem Numbered.addItemBodies {globals : List String} (rest : List (Source.Item Source.Block))
    (numbered : p.Numbered (done ++ rest)) (state : p.Building done rest)
    (distinct : ((done ++ rest).flatMap Source.Item.functionNames).Nodup)
    (complete : ∀ item ∈ rest, item.Complete)
    (checked : ∀ item ∈ rest, item.Checked globals)
    (given : ∀ name ∈ globals, (p.globals.get? name).isSome) :
    (rest.foldl Program.addItemBody p).Numbered (done ++ rest) := by
  induction rest generalizing p done with
  | nil => exact numbered
  | cons item rest ih =>
    obtain ⟨here, complete⟩ := List.forall_mem_cons.mp complete
    obtain ⟨checkedHere, checked⟩ := List.forall_mem_cons.mp checked
    obtain ⟨next, keeps⟩ := state.addItemBody distinct here checkedHere given
    have step := numbered.addItemBody state next keeps
    have row : done ++ item :: rest = (done ++ [item]) ++ rest := by
      rw [List.append_assoc, List.singleton_append]
    rw [row] at step distinct ⊢
    exact ih step next distinct complete checked fun name h => keeps.globals (given name h)

end Items

/-- The operations of a loaded program, in program order, have increasing numbers. -/
theorem allOps_increasing_of_load {read : Sexp.Reader} {file text : String}
    (loaded : Program.loadWith read file text = .ok p) :
    p.allOps.Pairwise (· < ·) := by
  obtain ⟨source, parsed, rfl⟩ := source_of_load loaded
  obtain ⟨checked, _⟩ := Source.checked_of_parse parsed
  obtain ⟨declaring, building⟩ := building_declared checked
  have start :
      (source.items.foldl declareItem (empty source.name)).Numbered ([] ++ source.items) := by
    constructor
    · have none : (empty source.name).functions.keys =
          ([] : List (Source.Item Source.Block)).flatMap
        Source.Item.functionNames := rfl
      exact ⟨[], by rw [keys_declareItems source.items none checked.functions, List.append_nil]⟩
    · rw [building.allOps_eq_of_append (List.nil_append _).symm rfl]
      exact List.Pairwise.nil
  exact (start.addItemBodies source.items building checked.functions
    (Source.complete_of_parse parsed) checked.items
    declaring.globals).increasing

end Relock.Program
