import Relock.Proofs.Program.Faithful
import Relock.Source.Mention

/-!
# What a program has from its items

The tables of a program say what its items say. The structures and globals are those of the items,
and the functions are those of the items and those that the bodies mention; of the latter nothing is
known but the name. None of this depends on which item comes first.
-/

namespace Relock

namespace Source

/-- The function that a callee mentions. -/
def calledNames : Option Callee → List String
  | some (.function name) => [name]
  | _ => []

/-- The functions that an operation mentions: its callee and those among its operands. -/
def Op.mentions (op : Op) : List String := calledNames op.callee ++ referredNames op.operands

/-- The functions that the body of an item mentions. -/
def Item.mentions : Item Block → List String
  | .function _ blocks => blocks.flatMap fun block => block.ops.flatMap Op.mentions
  | _ => []

end Source

/-- A function of which nothing is known but its name. -/
def Function.bare (name : String) : Function :=
  { name := name, params := [], blocks := [], returns := .void }

namespace Program

variable {p q r : Program} {changing : Nat → Prop} {f : FunctionId} {names more : List String}

/-! ## Functions that are mentioned -/

/-- Nothing has been named. -/
structure SameTables (p q : Program) : Prop where
  name : q.name = p.name
  structs : q.structs = p.structs
  globals : q.globals = p.globals
  functions : q.functions = p.functions

theorem SameTables.refl (p : Program) : SameTables p p := ⟨rfl, rfl, rfl, rfl⟩

theorem SameTables.trans (pq : SameTables p q) (qr : SameTables q r) : SameTables p r where
  name := qr.name.trans pq.name
  structs := qr.structs.trans pq.structs
  globals := qr.globals.trans pq.globals
  functions := qr.functions.trans pq.functions

theorem SameTables.foldl {α : Type} {act : Program → α → Program}
    (one : ∀ p a, SameTables p (act p a)) (row : List α) (p : Program) :
    SameTables p (row.foldl act p) := by
  induction row generalizing p with
  | nil => exact .refl p
  | cons a row ih => exact (one p a).trans (ih _)

/-- Some functions have been mentioned: those that were not known are declared, and the other tables
stay. -/
structure Introduces (names : List String) (p q : Program) : Prop where
  name : q.name = p.name
  structs : q.structs = p.structs
  globals : q.globals = p.globals
  known : ∀ {name}, (q.functions.get? name).isSome ↔ (p.functions.get? name).isSome ∨ name ∈ names
  bare : ∀ {name f}, q.functions.get? name = some f →
    p.functions.get? name = some f ∨ q.function? f = some (.bare name)

/-- Functions have been mentioned, and no function that there was has changed. -/
structure Mentions (names : List String) (p q : Program) : Prop extends Introduces names p q where
  kept : ∀ {f fn}, p.function? f = some fn → q.function? f = some fn

theorem Mentions.of_same (same : SameTables p q)
    (kept : ∀ f fn, p.function? f = some fn → q.function? f = some fn) :
    Mentions [] p q where
  name := same.name
  structs := same.structs
  globals := same.globals
  known := by simp only [same.functions, List.not_mem_nil, or_false, implies_true]
  bare h := .inl (same.functions ▸ h)
  kept h := kept _ _ h

theorem Mentions.refl (p : Program) : Mentions [] p p := .of_same (.refl p) fun _ _ => id

theorem Mentions.trans (pq : Mentions names p q) (qr : Mentions more q r) :
    Mentions (names ++ more) p r where
  name := qr.name.trans pq.name
  structs := qr.structs.trans pq.structs
  globals := qr.globals.trans pq.globals
  known := by
    intro name
    rw [qr.known, pq.known, List.mem_append, or_assoc]
  bare h := by
    rcases qr.bare h with old | new
    · exact (pq.bare old).imp_right qr.kept
    · exact .inr new
  kept h := qr.kept (pq.kept h)

theorem mentions_push (p : Program) (n : Node) : Mentions [] p (p.push n).2 := by
  refine .of_same ⟨rfl, rfl, rfl, rfl⟩ fun f fn known => ?_
  rw [function?_push, if_neg (Nat.ne_of_lt (lt_size_of_function? p known))]
  exact known

theorem mentions_addFunction (p : Program) (name : String) :
    Mentions [name] p (p.addFunction name).2 := by
  unfold addFunction
  cases found : p.functions.get? name with
  | some f =>
    refine ⟨⟨rfl, rfl, rfl, fun {other} => ?_, .inl⟩, id⟩
    refine ⟨.inl, fun h => h.elim id fun mem => ?_⟩
    rw [List.mem_singleton.mp mem]
    exact Option.isSome_of_eq_some found
  | none =>
    have made := mentions_push p (.function (.bare name))
    refine ⟨⟨rfl, rfl, rfl, fun {other} => ?_, fun {other f} h => ?_⟩, made.kept⟩
    · show ((p.functions.set name p.nodes.size).get? other).isSome ↔ _
      rw [Keyed.get?_set, List.mem_singleton]
      split
      next same => simp only [Option.isSome_some, same, or_true]
      next other => exact ⟨.inl, fun h => h.elim id fun same => absurd same.symm other⟩
    · change (p.functions.set name p.nodes.size).get? other = some f at h
      rw [Keyed.get?_set] at h
      split at h
      next same =>
        cases h
        subst same
        exact .inr ((function?_push p (.function (.bare name)) p.nodes.size).trans (if_pos rfl))
      next => exact .inl h

section Operands

variable (scope : List (String × ValueId))

theorem mentions_operandValue (p : Program) (operand : Source.Operand) :
    Mentions (Source.referredNames [operand]) p (operandValue scope p operand).2 := by
  cases operand with
  | constant n => exact mentions_push p _
  | value name => exact .refl _
  | function name => exact (mentions_addFunction p name).trans (mentions_push _ _)

theorem mentions_operandValues (p : Program) (operands : List Source.Operand) :
    Mentions (Source.referredNames operands) p (operandValues scope p operands).2 := by
  induction operands generalizing p with
  | nil => exact .refl _
  | cons operand operands ih =>
    have row : Source.referredNames (operand :: operands) =
        Source.referredNames [operand] ++ Source.referredNames operands :=
          List.filterMap_append (l := [operand])
    rw [row]
    exact (mentions_operandValue scope p operand).trans (ih _)

theorem mentions_calleeValue (p : Program) (callee : Option Source.Callee) :
    Mentions (Source.calledNames callee) p (calleeValue scope p callee).2 := by
  rcases callee with _ | name | name
  · exact .refl _
  · exact mentions_addFunction p name
  · exact .refl _

theorem mentions_attach (o : OpId) (vs : List ValueId) (p : Program) :
    Mentions [] p (p.attach o vs) := by
  induction vs generalizing p with
  | nil => exact .refl _
  | cons v vs ih =>
    have one : Mentions [] p (p.attachOne o v) := .of_same ⟨rfl, rfl, rfl, rfl⟩ fun f fn known => by
      rw [attachOne, function?_modifyValue, function?_modifyOp]
      exact known
    exact one.trans (ih _)

theorem mentions_wireOp (p : Program) (placed : OpId × Source.Op) :
    Mentions placed.2.mentions p (wireOp scope p placed) := by
  obtain ⟨o, op⟩ := placed
  have filled := (mentions_calleeValue scope p op.callee).trans
    (mentions_operandValues scope _ op.operands)
  have labelled (q : Program) (change : Operation → Operation) :
      Mentions [] q (q.modifyOp o change) :=
    .of_same ⟨rfl, rfl, rfl, rfl⟩ fun f fn known => by
      rw [function?_modifyOp]
      exact known
  have whole := (filled.trans (labelled _ fun made =>
    { made with callee := (calleeValue scope p op.callee).1, indices := op.indices,
                targets := op.targets })).trans
      (mentions_attach o (operandValues scope (calleeValue scope p op.callee).2 op.operands).1 _)
  rw [List.append_nil, List.append_nil] at whole
  exact whole

theorem mentions_wireOps (placed : List (OpId × Source.Op)) (p : Program) :
    Mentions (placed.flatMap fun e => e.2.mentions) p (placed.foldl (wireOp scope) p) := by
  induction placed generalizing p with
  | nil => exact .refl _
  | cons first placed ih => exact (mentions_wireOp scope p first).trans (ih _)

end Operands

/-! ## Bodies -/

/-- Laying out names nothing, and leaves the operations to be connected in order. -/
structure LaysOut (ops : List Source.Op) (layout more : Layout) : Prop where
  tables : SameTables layout.program more.program
  placed : more.placed.map (·.2) = layout.placed.map (·.2) ++ ops

theorem LaysOut.trans {ops others : List Source.Op} {layout middle more : Layout}
    (first : LaysOut ops layout middle) (second : LaysOut others middle more) :
    LaysOut (ops ++ others) layout more :=
  ⟨first.tables.trans second.tables, by rw [second.placed, first.placed, List.append_assoc]⟩

theorem laysOut_addOps (ops : List Source.Op) (b : BlockId) (layout : Layout) :
    LaysOut ops layout (ops.foldl (Layout.addOp b) layout) := by
  induction ops generalizing layout with
  | nil => exact ⟨.refl _, (List.append_nil _).symm⟩
  | cons op ops ih =>
    have added : SameTables layout.program (layout.program.addOp b op.kind [] op.result).2 := by
      rw [addOp_eq]
      unfold dressOp
      cases op.result <;> exact ⟨rfl, rfl, rfl, rfl⟩
    have one : LaysOut [op] layout (Layout.addOp b layout op) :=
      ⟨⟨added.name, added.structs, added.globals, added.functions⟩, List.map_append⟩
    exact one.trans (ih _)

theorem laysOut_addBlocks (blocks : List Source.Block) (layout : Layout) :
    LaysOut (blocks.flatMap (·.ops)) layout (blocks.foldl (Layout.addBlock f) layout) := by
  induction blocks generalizing layout with
  | nil => exact ⟨.refl _, (List.append_nil _).symm⟩
  | cons block blocks ih =>
    have start : LaysOut [] layout
        { layout with program := (layout.program.addBlock f block.label).2 } :=
      ⟨⟨rfl, rfl, rfl, rfl⟩, (List.append_nil _).symm⟩
    exact (start.trans (laysOut_addOps block.ops _ _)).trans (ih _)

theorem sameTables_linkBlocks (row : List BlockId) (p : Program) :
    SameTables p (row.foldl (linkBlock f) p) := by
  refine SameTables.foldl (fun p b => ?_) row p
  rw [linkBlock_eq]
  refine SameTables.foldl (fun p dst => ?_) _ p
  unfold link
  split <;> exact ⟨rfl, rfl, rfl, rfl⟩

/-- Making a body declares the functions that it mentions. -/
theorem introduces_addBody (p : Program) (f : FunctionId) (blocks : List Source.Block) :
    Introduces (blocks.flatMap fun block => block.ops.flatMap Source.Op.mentions) p
    (p.addBody f blocks) := by
  let start : Layout :=
    { program := p, scope := ((p.function f).params.map fun v => ((p.value v).name, v)).reverse,
      placed := [] }
  have laid := laysOut_addBlocks (f := f) blocks start
  let layout := blocks.foldl (Layout.addBlock f) start
  change LaysOut _ start layout at laid
  have wired := mentions_wireOps layout.scope layout.placed layout.program
  have names : layout.placed.flatMap (fun e => e.2.mentions) =
      blocks.flatMap fun block => block.ops.flatMap Source.Op.mentions := by
    have ops : layout.placed.map (·.2) = blocks.flatMap (·.ops) := laid.placed
    rw [← List.flatMap_assoc, ← ops, List.flatMap_map]
  rw [names] at wired
  let q := layout.placed.foldl (wireOp layout.scope) layout.program
  change Mentions _ layout.program q at wired
  have linked : SameTables q (p.addBody f blocks) := sameTables_linkBlocks (q.function f).blocks q
  refine ⟨?_, ?_, ?_, fun {name} => ?_, fun {name g} h => ?_⟩
  · rw [linked.name, wired.name, laid.tables.name]
  · rw [linked.structs, wired.structs, laid.tables.structs]
  · rw [linked.globals, wired.globals, laid.tables.globals]
  · rw [linked.functions, wired.known, laid.tables.functions]
  · rw [linked.functions] at h
    rcases wired.bare h with old | new
    · rw [laid.tables.functions] at old
      exact .inl old
    · exact .inr ((function?_linkBlocks (q.function f).blocks q g).trans new)

/-! ## Items -/

/-- The globals with their types. -/
def globalTypes (p : Program) : List (String × Ty) :=
  p.globals.map fun e => (e.1, (p.value e.2).type)

theorem globalTypes_mono (keeps : Keeps changing p q) (named : p.Named)
    (same : q.globals = p.globals) :
    q.globalTypes = p.globalTypes := by
  unfold globalTypes
  rw [same]
  refine List.map_congr_left fun e mem => ?_
  obtain ⟨x, known, _⟩ := named.globals mem
  rw [(keeps.value known).2.1]

theorem globalTypes_addGlobal (named : p.Named) {name : String} {type : Ty}
    (new : name ∉ p.globalTypes.map (·.1)) :
    (p.addGlobal name type).2.globalTypes = p.globalTypes ++ [(name, type)] := by
  have quiet : Quiet (fun _ => False) p (p.addGlobal name type).2 := quiet_addGlobal p name type
  have keys : p.globalTypes.map (·.1) = p.globals.keys := List.map_map
  have table : (p.addGlobal name type).2.globals = p.globals ++ [(name, p.nodes.size)] :=
    Keyed.set_of_notMem_keys (keys ▸ new) p.nodes.size
  have made : (p.addGlobal name type).2.value? p.nodes.size =
      some { name := name, type := type, origin := .global, uses := [] } :=
    (value?_push p _ p.nodes.size).trans (if_pos rfl)
  have older : p.globals.map (fun e => (e.1, ((p.addGlobal name type).2.value e.2).type)) =
      p.globalTypes := by
    refine List.map_congr_left fun e mem => ?_
    obtain ⟨x, known, _⟩ := named.globals mem
    rw [(quiet.value known).2.1]
  rw [globalTypes, table, List.map_append, older, List.map_singleton, value_eq made]

/-- The tables of a program are those of its items and of what some of their bodies mention. -/
structure Presents (p : Program) (items done : List (Source.Item Source.Block)) : Prop where
  structs : p.structs = items.flatMap Source.Item.structs
  globals : p.globalTypes = items.flatMap Source.Item.globals
  functions : ∀ {name}, (p.functions.get? name).isSome ↔
    name ∈ items.flatMap Source.Item.functionNames ∨ name ∈ done.flatMap Source.Item.mentions
  bare : ∀ {name f}, p.functions.get? name = some f →
    name ∈ items.flatMap Source.Item.functionNames ∨ p.function? f = some (.bare name)

section Items

variable {items done rest : List (Source.Item Source.Block)} {item : Source.Item Source.Block}

/-- A function is named before it gets its parameters. -/
theorem sameTables_declareFunction {β : Type} (p : Program) (signature : Source.Signature)
    (blocks : List β) :
    SameTables (p.addFunction signature.name).2 (p.declareItem (.function signature blocks)) := by
  have params := SameTables.foldl (fun q (param : String × Ty) =>
    (⟨rfl, rfl, rfl, rfl⟩ : SameTables q
      (q.addParam (p.addFunction signature.name).1 param.1 param.2).2))
    signature.params (p.addFunction signature.name).2
  exact ⟨params.name, params.structs, params.globals, params.functions⟩

/-- Declaring an item names what the item is. -/
theorem Presents.declareItem (state : p.Presents items []) (named : p.Named)
    (absent : ∀ name ∈ item.functionNames, p.functions.get? name = none)
    (newStruct : ∀ e ∈ item.structs, e.1 ∉ (items.flatMap Source.Item.structs).map (·.1))
    (newGlobal : ∀ e ∈ item.globals, e.1 ∉ (items.flatMap Source.Item.globals).map (·.1)) :
    (p.declareItem item).Presents (items ++ [item]) [] := by
  have quiet : Quiet (fun i => p.nodes.size ≤ i) p (p.declareItem item) := quiet_declareItem absent
  -- an item of any kind leaves the tables of the other kinds
  have tables : (p.declareItem item).structs = p.structs ++ item.structs ∧
      (p.declareItem item).globalTypes = p.globalTypes ++ item.globals ∧
      ∀ {name}, ((p.declareItem item).functions.get? name).isSome ↔
        (p.functions.get? name).isSome ∨ name ∈ item.functionNames := by
    cases item with
    | struct name fields =>
      refine ⟨?_, ?_, ?_⟩
      · refine Keyed.set_of_notMem_keys ?_ fields
        rw [Keyed.keys, state.structs]
        exact newStruct (name, fields) List.mem_cons_self
      · exact (globalTypes_mono quiet.toKeeps named rfl).trans (List.append_nil _).symm
      · simp only [Program.declareItem, setStruct, Source.Item.functionNames, List.not_mem_nil,
          or_false, implies_true]
    | global name type =>
      refine ⟨(List.append_nil _).symm, ?_, ?_⟩
      · refine globalTypes_addGlobal named ?_
        rw [state.globals]
        exact newGlobal (name, type) List.mem_cons_self
      · simp only [Program.declareItem, addGlobal, push, Source.Item.functionNames,
          List.not_mem_nil, or_false, implies_true]
    | function signature blocks =>
      have declared := mentions_addFunction p signature.name
      have rest := sameTables_declareFunction p signature blocks
      refine ⟨?_, ?_, ?_⟩
      · exact (rest.structs.trans declared.structs).trans (List.append_nil _).symm
      · exact (globalTypes_mono quiet.toKeeps named (rest.globals.trans declared.globals)).trans
          (List.append_nil _).symm
      · rw [rest.functions]
        exact declared.known
  obtain ⟨structs, globals, functions⟩ := tables
  have known {name : String} : ((p.declareItem item).functions.get? name).isSome ↔
      name ∈ (items ++ [item]).flatMap Source.Item.functionNames ∨
      name ∈ [].flatMap Source.Item.mentions := by
    rw [functions, state.functions, List.flatMap_append, List.flatMap_singleton, List.mem_append]
    simp only [List.flatMap_nil, List.not_mem_nil, or_false]
  refine ⟨?_, ?_, known, fun h => .inl ?_⟩
  · rw [structs, state.structs, List.flatMap_append, List.flatMap_singleton]
  · rw [globals, state.globals, List.flatMap_append, List.flatMap_singleton]
  · exact (known.mp (Option.isSome_of_eq_some h)).resolve_right List.not_mem_nil

theorem introduces_addItemBody
    (known : ∀ name ∈ item.functionNames, (p.functions.get? name).isSome) :
    Introduces item.mentions p (p.addItemBody item) := by
  have same : Introduces [] p p := (Mentions.refl p).toIntroduces
  cases item with
  | struct name fields => exact same
  | global name type => exact same
  | function signature blocks =>
    cases blocks with
    | nil => exact same
    | cons block blocks =>
      obtain ⟨f, found⟩ := Option.isSome_iff_exists.mp (known signature.name List.mem_cons_self)
      have whole : p.addItemBody (.function signature (block :: blocks)) =
          p.addBody f (block :: blocks) := by
        simp only [addItemBody, found]
      rw [whole]
      exact introduces_addBody p f (block :: blocks)

/-- Making the body of an item names the functions that the body mentions. -/
theorem Presents.addItemBody (state : p.Presents items done) (named : p.Named) (mem : item ∈ items)
    (keeps : Keeps (fun i => (∃ name ∈ item.functionNames, p.functions.get? name = some i) ∨
      p.nodes.size ≤ i) p (p.addItemBody item)) :
    (p.addItemBody item).Presents items (done ++ [item]) := by
  have own (name : String) (h : name ∈ item.functionNames) :
      name ∈ items.flatMap Source.Item.functionNames :=
    List.mem_flatMap.mpr ⟨item, mem, h⟩
  have new := introduces_addItemBody fun name h => state.functions.mpr (.inl (own name h))
  refine ⟨new.structs.trans state.structs,
    (globalTypes_mono keeps named new.globals).trans state.globals, ?_, ?_⟩
  · intro name
    rw [new.known, state.functions, List.flatMap_append, List.flatMap_singleton, List.mem_append,
      or_assoc]
  · intro name g given
    rcases new.bare given with old | bare
    · rcases state.bare old with inside | bare
      · exact .inl inside
      · by_cases here : name ∈ item.functionNames
        · exact .inl (own name here)
        · refine .inr (keeps.sameFunction ?_ bare)
          rintro (⟨other, h, same⟩ | past)
          · obtain ⟨fn, known, rfl⟩ := named.functions (Keyed.mem_of_get? same)
            cases known.symm.trans bare
            exact here h
          · exact Nat.not_le_of_lt (lt_size_of_function? p bare) past
    · exact .inr bare

theorem Presents.declareItems (more : List (Source.Item Source.Block))
    (declaring : p.Declaring items) (state : p.Presents items [])
    (functions : ((items ++ more).flatMap Source.Item.functionNames).Nodup)
    (structs : (((items ++ more).flatMap Source.Item.structs).map (·.1)).Nodup)
    (globals : (((items ++ more).flatMap Source.Item.globals).map (·.1)).Nodup) :
    (more.foldl Program.declareItem p).Presents (items ++ more) [] := by
  induction more generalizing p items with
  | nil =>
    rw [List.append_nil]
    exact state
  | cons item more ih =>
    have row : items ++ item :: more = (items ++ [item]) ++ more := by
      rw [List.append_assoc, List.singleton_append]
    have apart {α : Type} {names : Source.Item Source.Block → List α}
        (nodup : ((items ++ item :: more).flatMap names).Nodup) :
          ∀ a ∈ names item, a ∉ items.flatMap names := by
      intro a here old
      rw [List.flatMap_append, List.flatMap_cons] at nodup
      exact (List.nodup_append.mp nodup).2.2 a old a (List.mem_append_left _ here) rfl
    have newFunction := apart functions
    have next : (p.declareItem item).Presents (items ++ [item]) [] := by
      refine state.declareItem declaring.sane.named (fun name mem => ?_) (fun e mem =>
        ?_) fun e mem => ?_
      · refine Option.not_isSome_iff_eq_none.mp fun known => ?_
        exact newFunction name mem ((state.functions.mp known).resolve_right List.not_mem_nil)
      · rw [List.map_flatMap] at structs ⊢
        exact apart structs e.1 (List.mem_map_of_mem mem)
      · rw [List.map_flatMap] at globals ⊢
        exact apart globals e.1 (List.mem_map_of_mem mem)
    rw [row] at functions structs globals ⊢
    exact ih (declaring.declareItem newFunction) next functions structs globals

theorem Presents.addItemBodies {names : List String} (rest : List (Source.Item Source.Block))
    (building : p.Building done rest) (state : p.Presents items done) (sub : rest ⊆ items)
    (distinct : ((done ++ rest).flatMap Source.Item.functionNames).Nodup)
    (complete : ∀ item ∈ rest, item.Complete)
    (checked : ∀ item ∈ rest, item.Checked names)
    (given : ∀ name ∈ names, (p.globals.get? name).isSome) :
    (rest.foldl Program.addItemBody p).Presents items (done ++ rest) := by
  induction rest generalizing p done with
  | nil =>
    rw [List.append_nil]
    exact state
  | cons item rest ih =>
    obtain ⟨here, complete⟩ := List.forall_mem_cons.mp complete
    obtain ⟨checkedHere, checked⟩ := List.forall_mem_cons.mp checked
    obtain ⟨mem, sub⟩ := List.cons_subset.mp sub
    obtain ⟨next, keeps⟩ := building.addItemBody distinct here checkedHere given
    have row : done ++ item :: rest = (done ++ [item]) ++ rest := by
      rw [List.append_assoc, List.singleton_append]
    rw [row] at distinct ⊢
    exact ih next (state.addItemBody building.sane.named mem keeps) sub distinct complete checked
      fun name h =>
      keeps.globals (given name h)

end Items

/-- A program is called as its text. -/
theorem name_ofSource (source : Source) : (ofSource source).name = source.name := by
  have foldl {act : Program → Source.Item Source.Block → Program}
      (one : ∀ p item, (act p item).name = p.name)
      (items : List (Source.Item Source.Block)) (p : Program) : (items.foldl act p).name =
        p.name := by
    induction items generalizing p with
    | nil => rfl
    | cons item items ih => rw [List.foldl_cons, ih, one]
  have declared (p : Program) (item : Source.Item Source.Block) :
      (p.declareItem item).name = p.name := by
    cases item with
    | struct name fields => rfl
    | global name type => rfl
    | function signature blocks =>
      rw [(sameTables_declareFunction p signature blocks).name,
        (mentions_addFunction p signature.name).name]
  have bodies (p : Program) (item : Source.Item Source.Block) :
      (p.addItemBody item).name = p.name := by
    unfold addItemBody
    split
    next =>
      split
      next => exact (introduces_addBody p _ _).name
      next => rfl
    next => rfl
  rw [ofSource, foldl bodies, foldl declared, empty]

/-- A program made from a checked text presents the items of the text. -/
theorem presents_ofSource {source : Source} (checked : source.Checked)
    (complete : ∀ item ∈ source.items, item.Complete)
    (structs : ((source.items.flatMap Source.Item.structs).map (·.1)).Nodup)
    (globals : ((source.items.flatMap Source.Item.globals).map (·.1)).Nodup) :
    (ofSource source).Presents source.items source.items := by
  have start : (empty source.name).Presents [] [] := ⟨rfl, rfl, fun {name} => ⟨nofun, nofun⟩, nofun⟩
  have declared := start.declareItems source.items (declaring_empty source.name) checked.functions
    structs globals
  obtain ⟨declaring, building⟩ := building_declared checked
  exact declared.addItemBodies source.items building (List.Subset.refl _) checked.functions complete
    checked.items
    declaring.globals

end Program
end Relock
