import Relock.Proofs.Keyed
import Relock.Proofs.Program.Keeps

/-!
# What nodes refer to

A function refers to its parameters, an operation to its result, its operands and its callee. `Fits`
says that a node refers to nodes of the right kind: parameters and results come from where they are
listed, and an operation uses values of its own function and values that belong to none. It only
looks at what every later program keeps, so that a node which fits goes on to fit.

`Quiet` collects the builder operations that connect nothing: they leave operands, uses and the
control flow as they are. Attaching operands and linking blocks are not among them.
-/

namespace Relock
namespace Program

variable {p q r : Program} {changing : Nat → Prop}

/-! ## References -/

/-- Where a value comes from, if the number is a value's. -/
def originOf? (p : Program) (v : ValueId) : Option Origin := (p.value? v).map (·.origin)

/-- The function that a block belongs to, if the number is a block's. -/
def ownerOf? (p : Program) (b : BlockId) : Option FunctionId := (p.block? b).map (·.function)

theorem originOf?_eq {v : ValueId} {x : Value} (h : p.value? v = some x) :
    p.originOf? v = some x.origin := by
  rw [originOf?, h, Option.map_some]

theorem ownerOf?_eq {b : BlockId} {block : Block} (h : p.block? b = some block) :
    p.ownerOf? b = some block.function := by
  rw [ownerOf?, h, Option.map_some]

theorem function_of_ownerOf? {b : BlockId} {f : FunctionId} (h : p.ownerOf? b = some f) :
    (p.block b).function = f := by
  obtain ⟨block, known, rfl⟩ := Option.map_eq_some_iff.mp h
  rw [block_eq known]

theorem Keeps.originOf? (keeps : Keeps changing p q) {v : ValueId} {origin : Origin}
    (h : p.originOf? v = some origin) : q.originOf? v = some origin := by
  obtain ⟨x, known, rfl⟩ := Option.map_eq_some_iff.mp h
  obtain ⟨uses, known'⟩ := keeps.value? known
  rw [Program.originOf?, known']
  rfl

theorem Keeps.ownerOf? (keeps : Keeps changing p q) {b : BlockId} {f : FunctionId}
    (h : p.ownerOf? b = some f) :
    q.ownerOf? b = some f := by
  obtain ⟨block, known, rfl⟩ := Option.map_eq_some_iff.mp h
  obtain ⟨block', known', _, owner⟩ := keeps.block? known
  rw [Program.ownerOf?, known', Option.map_some, owner]

/-- A value that the operations of a function may use: one of its own, or one that belongs to
none. -/
def Usable (p : Program) (f : FunctionId) (v : ValueId) : Prop :=
  ∃ origin, p.originOf? v = some origin ∧ (origin.owner? = none ∨ origin.owner? = some f)

/-- A callee that an operation of a function may have. -/
def Callable (p : Program) (f : FunctionId) : Callee → Prop
  | .absent => True
  | .direct g name => ∃ fn, p.function? g = some fn ∧ fn.name = name
  | .indirect v name => p.Usable f v ∧ name = "%" ++ (p.value v).name

/-- What an operation of a function refers to. -/
structure OpFits (p : Program) (o : OpId) (f : FunctionId) (op : Operation) : Prop where
  result : ∀ {v}, op.result = some v → p.originOf? v = some (.result o f)
  operands : ∀ v ∈ op.operands, p.Usable f v
  callee : p.Callable f op.callee

/-- What a node refers to. -/
def Fits (p : Program) (i : Nat) : Node → Prop
  | .function fn => fn.params.Nodup ∧ ∀ v ∈ fn.params, p.originOf? v = some (.argument i)
  | .operation op => ∃ b f, op.block = some b ∧ p.ownerOf? b = some f ∧ p.OpFits i f op
  | _ => True

/-- Every node fits. -/
def Fitted (p : Program) : Prop := ∀ i, p.Fits i (p.node i)

theorem Fitted.op (fitted : p.Fitted) {o : OpId} {op : Operation} (known : p.op? o = some op) :
    ∃ b f, op.block = some b ∧ p.ownerOf? b = some f ∧ p.OpFits o f op := by
  have fits := fitted o
  rw [op?_eq_some.mp known] at fits
  exact fits

theorem Fitted.params (fitted : p.Fitted) {f : FunctionId} {fn : Function}
    (known : p.function? f = some fn) :
    fn.params.Nodup ∧ ∀ v ∈ fn.params, p.originOf? v = some (.argument f) := by
  have fits := fitted f
  rw [function?_eq_some.mp known] at fits
  exact fits

theorem Keeps.usable (keeps : Keeps changing p q) {f : FunctionId} {v : ValueId}
    (h : p.Usable f v) : q.Usable f v := by
  obtain ⟨origin, known, owner⟩ := h
  exact ⟨origin, keeps.originOf? known, owner⟩

theorem Usable.value? {f : FunctionId} {v : ValueId} (h : p.Usable f v) :
    ∃ x, p.value? v = some x := by
  obtain ⟨origin, known, _⟩ := h
  obtain ⟨x, known, _⟩ := Option.map_eq_some_iff.mp known
  exact ⟨x, known⟩

/-- The name of a value stays. -/
theorem Keeps.value (keeps : Keeps changing p q) {v : ValueId} {x : Value}
    (h : p.value? v = some x) :
    (q.value v).name = (p.value v).name ∧ (q.value v).type = (p.value v).type ∧
      (q.value v).origin = (p.value v).origin := by
  obtain ⟨uses, h'⟩ := keeps.value? h
  rw [value_eq h, value_eq h']
  exact ⟨rfl, rfl, rfl⟩

theorem Keeps.callable (keeps : Keeps changing p q) {f : FunctionId} {callee : Callee}
    (h : p.Callable f callee) :
    q.Callable f callee := by
  cases callee with
  | absent => trivial
  | direct g name =>
    obtain ⟨fn, known, named⟩ := h
    obtain ⟨fn', known', same⟩ := keeps.function? known
    exact ⟨fn', known', same.trans named⟩
  | indirect v name =>
    obtain ⟨usable, named⟩ := h
    obtain ⟨x, known⟩ := usable.value?
    exact ⟨keeps.usable usable, by rw [(keeps.value known).1]; exact named⟩

/-- A node that fits goes on to fit. -/
theorem Fits.mono (keeps : Keeps changing p q) {i : Nat} {n : Node} (fits : p.Fits i n) :
    q.Fits i n := by
  cases n with
  | function fn => exact ⟨fits.1, fun v hv => keeps.originOf? (fits.2 v hv)⟩
  | operation op =>
    obtain ⟨b, f, placed, owner, result, operands, callee⟩ := fits
    refine ⟨b, f, placed, keeps.ownerOf? owner, fun h => keeps.originOf? (result h), fun v hv => ?_,
      keeps.callable callee⟩
    exact keeps.usable (operands v hv)
  | _ => trivial

/-- Only a changed node has to be looked at. -/
theorem Fitted.mono (fitted : p.Fitted) (keeps : Keeps changing p q)
    (changed : ∀ i, q.node i = p.node i ∨ q.Fits i (q.node i)) : q.Fitted := by
  intro i
  rcases changed i with same | fits
  · rw [same]
    exact (fitted i).mono keeps
  · exact fits

/-! ## Names -/

/-- The names that a program gives are the names of the nodes they are given to. -/
structure Named (p : Program) : Prop where
  functions : ∀ {name f}, (name, f) ∈ p.functions → ∃ fn, p.function? f = some fn ∧ fn.name = name
  keys : p.functions.keys.Nodup
  globals : ∀ {name v}, (name, v) ∈ p.globals → ∃ x, p.value? v = some x ∧ x.name = name ∧
    x.origin = .global
  distinct : p.globals.entries.Nodup

theorem Named.mono (named : p.Named) (keeps : Keeps changing p q)
    (functions : q.functions = p.functions) (globals : q.globals = p.globals) : q.Named where
  functions h := by
    obtain ⟨fn, known, name⟩ := named.functions (functions ▸ h)
    obtain ⟨fn', known', same⟩ := keeps.function? known
    exact ⟨fn', known', same.trans name⟩
  keys := functions ▸ named.keys
  globals h := by
    obtain ⟨x, known, name, origin⟩ := named.globals (globals ▸ h)
    obtain ⟨uses, known'⟩ := keeps.value? known
    exact ⟨_, known', name, origin⟩
  distinct := globals ▸ named.distinct

end Program

/-! ## Operations that connect nothing -/

/-- The edges in which a node has a part. -/
structure Wiring where
  uses : List Use := []
  operands : List ValueId := []
  successors : List BlockId := []
  predecessors : List BlockId := []

def Node.wiring : Node → Wiring
  | .value v => { uses := v.uses }
  | .operation o => { operands := o.operands }
  | .block b => { successors := b.successors, predecessors := b.predecessors }
  | _ => {}

namespace Program

variable {p q r : Program} {changing : Nat → Prop}

theorem uses_eq (p : Program) (v : ValueId) : (p.value v).uses = (p.node v).wiring.uses := by
  unfold value value?
  cases p.node v <;> rfl

theorem operands_eq (p : Program) (o : OpId) : (p.op o).operands = (p.node o).wiring.operands := by
  unfold op op?
  cases p.node o <;> rfl

theorem successors_eq (p : Program) (b : BlockId) :
    (p.block b).successors = (p.node b).wiring.successors := by
  unfold block block?
  cases p.node b <;> rfl

theorem predecessors_eq (p : Program) (b : BlockId) :
    (p.block b).predecessors = (p.node b).wiring.predecessors := by
  unfold block block?
  cases p.node b <;> rfl

/-- Nodes and names are added and changed, and nothing is connected. -/
structure Quiet (changing : Nat → Prop) (p q : Program) : Prop extends Keeps changing p q where
  fitted : p.Fitted → q.Fitted
  named : p.Named → q.Named
  wiring : ∀ i, (q.node i).wiring = (p.node i).wiring

theorem Quiet.refl (changing : Nat → Prop) (p : Program) : Quiet changing p p :=
  ⟨.refl changing p, id, id, fun _ => rfl⟩

theorem Quiet.trans (pq : Quiet changing p q) (qr : Quiet changing q r) : Quiet changing p r where
  toKeeps := pq.toKeeps.trans qr.toKeeps
  fitted h := qr.fitted (pq.fitted h)
  named h := qr.named (pq.named h)
  wiring i := (qr.wiring i).trans (pq.wiring i)

theorem Quiet.weaken {more : Nat → Prop} (quiet : Quiet changing p q)
    (sub : ∀ {i}, changing i → more i) :
    Quiet more p q :=
  ⟨quiet.toKeeps.weaken sub, quiet.fitted, quiet.named, quiet.wiring⟩

/-- A node that is not connected yet. -/
theorem quiet_push {n : Node} (idle : n.wiring = {})
    (fits : p.Fitted → (p.push n).2.Fits p.nodes.size n) :
    Quiet changing p (p.push n).2 where
  toKeeps := keeps_push changing p n
  fitted fitted := by
    refine fitted.mono (keeps_push changing p n) fun i => ?_
    rw [node_push]
    split
    next new => exact .inr (new ▸ fits fitted)
    next => exact .inl rfl
  named named := named.mono (keeps_push changing p n) rfl rfl
  wiring i := by
    rw [node_push]
    split
    next new => rw [new, node_of_size_le p (Nat.le_refl _), idle]; rfl
    next => rfl

/-- The table of nodes is all that a change of names leaves. -/
theorem Quiet.rename (quiet : Quiet changing p q) (nodes : r.nodes = q.nodes)
    (functions : ∀ {name f}, q.functions.get? name = some f → r.functions.get? name = some f)
    (globals : ∀ {name}, (q.globals.get? name).isSome → (r.globals.get? name).isSome)
    (named : p.Named → r.Named) :
    Quiet changing p r := by
  have node (i : Nat) : r.node i = q.node i := by rw [Program.node, Program.node, nodes]
  have keeps : Keeps changing q r :=
    ⟨Nat.le_of_eq (by rw [nodes]),
      fun _ => by rw [node], fun _ _ => by rw [node], functions, globals⟩
  refine ⟨quiet.toKeeps.trans keeps, fun fitted => ?_, named, fun i => by rw [node, quiet.wiring]⟩
  exact (quiet.fitted fitted).mono keeps fun i => .inl (node i)

section Modify

variable {i : Nat} {change : Node → Node}
    (keeps : Keeps changing p { p with nodes := p.nodes.modify i change })
  (vacant : change .vacant = .vacant)
include keeps vacant

theorem Fitted.modify (fitted : p.Fitted)
    (fits : ({ p with nodes := p.nodes.modify i change } : Program).Fits i (change (p.node i))) :
    ({ p with nodes := p.nodes.modify i change } : Program).Fitted := by
  refine fitted.mono keeps fun j => ?_
  rw [node_modify p change vacant]
  split
  next here => exact .inr (here ▸ fits)
  next => exact .inl rfl

/-- A change of a node that leaves its connections. -/
theorem quiet_modify (wiring : ∀ n, (change n).wiring = n.wiring)
    (fitted : p.Fitted → ({ p with nodes := p.nodes.modify i change } : Program).Fitted) :
    Quiet changing p { p with nodes := p.nodes.modify i change } where
  toKeeps := keeps
  fitted := fitted
  named named := named.mono keeps rfl rfl
  wiring j := by
    rw [node_modify p change vacant]
    split
    next => exact wiring _
    next => rfl

end Modify

/-- A change of a function that leaves its name and its parameters. -/
theorem quiet_modifyFunction {f : FunctionId} {change : Function → Function} (here : changing f)
    (made : ∀ fn, (change fn).name = fn.name) (params : ∀ fn, (change fn).params = fn.params) :
    Quiet changing p (p.modifyFunction f change) := by
  have keeps : Keeps changing p (p.modifyFunction f change) := keeps_modifyFunction here made
  refine quiet_modify keeps rfl (fun n => ?_) fun fitted => fitted.modify keeps rfl ?_
  · cases n <;> rfl
  · have old := (fitted f).mono keeps
    cases found : p.node f with
    | function fn =>
      rw [found] at old
      simp only [Fits, params] at old ⊢
      exact old
    | operation op =>
      rw [found] at old
      exact old
    | _ => trivial

/-- A changed operation fits if what it refers to is there. -/
theorem Fitted.modifyOp (fitted : p.Fitted) {o : OpId} {change : Operation → Operation}
    (made : ∀ op, (change op).kind = op.kind ∧ (change op).block = op.block)
    (fits : ∀ {op b f}, p.node o = .operation op → op.block = some b → p.ownerOf? b = some f →
      p.OpFits o f op →
      p.OpFits o f (change op)) : (p.modifyOp o change).Fitted := by
  have keeps : Keeps (fun _ => True) p (p.modifyOp o change) := keeps_modifyOp trivial made
  refine fitted.modify keeps rfl ?_
  have old := fitted o
  cases found : p.node o with
  | operation op =>
    rw [found] at old
    obtain ⟨b, f, placed, owner, old⟩ := old
    have new : p.Fits o (.operation (change op)) :=
      ⟨b, f, (made op).2.trans placed, owner, fits found placed owner old⟩
    exact new.mono keeps
  | function fn =>
    rw [found] at old
    exact old.mono keeps
  | _ => trivial

theorem quiet_modifyOp {o : OpId} {change : Operation → Operation} (here : changing o)
    (made : ∀ op, (change op).kind = op.kind ∧ (change op).block = op.block)
    (operands : ∀ op, (change op).operands = op.operands)
    (fits : ∀ {op b f}, p.node o = .operation op → op.block = some b → p.ownerOf? b = some f →
      p.OpFits o f op →
      p.OpFits o f (change op)) : Quiet changing p (p.modifyOp o change) := by
  refine quiet_modify (keeps_modifyOp here made) rfl (fun n => ?_) fun fitted =>
    fitted.modifyOp made fits
  cases n with
  | operation op => simp only [Node.wiring, operands]
  | _ => rfl

theorem Fitted.modifyBlock (fitted : p.Fitted) {b : BlockId} {change : Block → Block}
    (made : ∀ block, (change block).name = block.name ∧ (change block).function = block.function) :
    (p.modifyBlock b change).Fitted := by
  have keeps : Keeps (fun _ => True) p (p.modifyBlock b change) := keeps_modifyBlock trivial made
  refine fitted.modify keeps rfl ?_
  have old := (fitted b).mono keeps
  cases found : p.node b with
  | block block => trivial
  | _ =>
    rw [found] at old
    exact old

theorem quiet_modifyBlock {b : BlockId} {change : Block → Block} (here : changing b)
    (made : ∀ block, (change block).name = block.name ∧ (change block).function = block.function)
    (edges : ∀ block, (change block).successors = block.successors ∧
      (change block).predecessors = block.predecessors) :
    Quiet changing p (p.modifyBlock b change) := by
  refine quiet_modify (keeps_modifyBlock here made) rfl (fun n => ?_) fun fitted =>
    fitted.modifyBlock made
  cases n with
  | block block => simp only [Node.wiring, edges block]
  | _ => rfl

/-! ## The builder operations that connect nothing -/

theorem quiet_setStruct (p : Program) (name : String) (fields : List Ty) :
    Quiet changing p (p.setStruct name fields) :=
  (Quiet.refl changing p).rename rfl id id fun named => ⟨named.functions, named.keys, named.globals,
    named.distinct⟩

theorem quiet_pushValue (p : Program) {x : Value} (unused : x.uses = []) :
    Quiet changing p (p.push (.value x)).2 :=
  quiet_push (by rw [Node.wiring, unused]) fun _ => trivial

theorem quiet_addFunction (p : Program) (name : String) :
    Quiet changing p (p.addFunction name).2 := by
  cases found : p.functions.get? name with
  | some f =>
    simp only [addFunction, found]
    exact .refl changing p
  | none =>
    let fn : Function := { name := name, params := [], blocks := [], returns := .void }
    have pushed : Quiet changing p (p.push (.function fn)).2 :=
      quiet_push rfl fun _ => ⟨List.nodup_nil, fun v hv => absurd hv List.not_mem_nil⟩
    have made : (p.addFunction name).2 =
        { (p.push (.function fn)).2 with functions := p.functions.set name p.nodes.size } := by
      simp only [addFunction, found, fn]
      rfl
    rw [made]
    refine pushed.rename rfl (fun {other f} known => ?_) id fun named => ?_
    · rw [Keyed.get?_set, if_neg]
      · exact known
      · rintro rfl
        cases found.symm.trans known
    · have kept := named.mono pushed.toKeeps rfl rfl
      refine ⟨fun {other f} h => ?_, Keyed.nodup_keys_set named.keys _ _, kept.globals,
        kept.distinct⟩
      rcases Keyed.mem_set h with old | ⟨rfl, rfl⟩
      · exact kept.functions old
      · refine ⟨fn, function?_eq_some.mpr ?_, rfl⟩
        show (p.push (.function fn)).2.node p.nodes.size = .function fn
        rw [node_push, if_pos rfl]

theorem quiet_addGlobal (p : Program) (name : String) (type : Ty) :
    Quiet changing p (p.addGlobal name type).2 := by
  let x : Value := { name := name, type := type, origin := .global, uses := [] }
  have pushed : Quiet changing p (p.push (.value x)).2 := quiet_pushValue p rfl
  refine pushed.rename rfl id (fun {other} known => ?_) fun named => ?_
  · show ((p.globals.set name p.nodes.size).get? other).isSome
    rw [Keyed.get?_set]
    split
    next => rfl
    next => exact known
  · have kept := named.mono pushed.toKeeps rfl rfl
    refine ⟨kept.functions, kept.keys, fun {other v} h => ?_, ?_⟩
    · rcases Keyed.mem_set h with old | ⟨rfl, rfl⟩
      · exact kept.globals old
      · refine ⟨x, value?_eq_some.mpr ?_, rfl, rfl⟩
        show (p.push (.value x)).2.node p.nodes.size = .value x
        rw [node_push, if_pos rfl]
    · refine Keyed.nodup_entries_set named.distinct fun old => ?_
      obtain ⟨⟨other, v⟩, mem, rfl⟩ := List.mem_map.mp old
      obtain ⟨y, known, _⟩ := named.globals mem
      exact absurd (lt_size_of_value? p known) (Nat.lt_irrefl _)

theorem node_modifyFunction (p : Program) (f : FunctionId) (change : Function → Function)
    (i : Nat) :
    (∃ fn, i = f ∧ p.node i = .function fn ∧
      (p.modifyFunction f change).node i = .function (change fn)) ∨
      (p.modifyFunction f change).node i = p.node i := by
  unfold modifyFunction
  rw [node_modify p _ rfl]
  split
  next here =>
    cases found : p.node i with
    | function fn => exact .inl ⟨fn, here, rfl, rfl⟩
    | _ => exact .inr rfl
  next => exact .inr rfl

theorem quiet_addParam (p : Program) {f : FunctionId} (here : changing f) (name : String)
    (type : Ty) :
    Quiet changing p (p.addParam f name type).2 := by
  let x : Value := { name := name, type := type, origin := .argument f, uses := [] }
  let add (fn : Function) : Function := { fn with params := fn.params ++ [p.nodes.size] }
  let q := (p.push (.value x)).2
  have pushed : Quiet changing p q := quiet_pushValue p rfl
  have changed : Keeps changing q (q.modifyFunction f add) := keeps_modifyFunction here fun _ => rfl
  have keeps : Keeps changing p (q.modifyFunction f add) := pushed.toKeeps.trans changed
  show Quiet changing p (q.modifyFunction f add)
  refine ⟨keeps, fun fitted => ?_, fun named => (pushed.named named).mono changed rfl rfl,
    fun i => ?_⟩
  · -- the parameters of the function so far are older than the new one
    refine fitted.mono keeps fun i => ?_
    rcases node_modifyFunction q f add i with ⟨fn, rfl, found, made⟩ | same
    · right
      rw [node_push] at found
      split at found
      next => cases found
      next =>
        have old := fitted i
        rw [found] at old
        obtain ⟨nodup, origins⟩ := old
        have new : (q.modifyFunction i add).originOf? p.nodes.size = some (.argument i) := by
          have made : q.node p.nodes.size = .value x := by rw [node_push, if_pos rfl]
          exact changed.originOf? (originOf?_eq (value?_eq_some.mpr made))
        rw [made]
        refine ⟨List.nodup_append.mpr ⟨nodup, by simp, ?_⟩, ?_⟩
        · intro v hv w hw same
          obtain ⟨y, known, _⟩ := Option.map_eq_some_iff.mp (origins v hv)
          have less := lt_size_of_value? p known
          rw [same, List.mem_singleton.mp hw] at less
          exact Nat.lt_irrefl _ less
        · intro v hv
          rcases List.mem_append.mp hv with old | last
          · exact keeps.originOf? (origins v old)
          · rw [List.mem_singleton.mp last]
            exact new
    · by_cases new : i = p.nodes.size
      · right
        rw [same, node_push, if_pos new]
        trivial
      · left
        rw [same, node_push, if_neg new]
  · rcases node_modifyFunction q f add i with ⟨fn, _, found, made⟩ | same
    · rw [made, ← pushed.wiring, found]
      rfl
    · rw [same, pushed.wiring]

theorem quiet_addBlock (p : Program) {f : FunctionId} (here : changing f) (label : String) :
    Quiet changing p (p.addBlock f label).2 := by
  have pushed : Quiet changing p (p.push (.block (emptyBlock f label))).2 :=
    quiet_push rfl fun _ => trivial
  exact pushed.trans (quiet_modifyFunction here (fun _ => rfl) fun _ => rfl)

/-- An operation without operands at the end of a block. -/
theorem quiet_addOp (p : Program) {b : BlockId} {held : Block} (known : p.block? b = some held)
    (here : changing b) (fresh : changing p.nodes.size) (kind : OpKind)
    (result : Option (String × Ty)) :
    Quiet changing p (p.addOp b kind [] result).2 := by
  have pushed : Quiet changing p (p.pushOp (some b) kind).2 := by
    refine quiet_push rfl fun _ => ?_
    refine ⟨b, held.function, rfl, (keeps_push changing p _).ownerOf? (ownerOf?_eq known), nofun,
      fun v hv => ?_, trivial⟩
    exact absurd hv List.not_mem_nil
  have dressed : Quiet changing (p.pushOp (some b) kind).2 (p.dressOp b kind [] result) := by
    cases result with
    | none => exact .refl changing _
    | some typed =>
      let q := (p.pushOp (some b) kind).2
      let x : Value :=
        { name := typed.1, type := typed.2, origin := .result p.nodes.size (q.block b).function,
          uses := [] }
      have added : Quiet changing q (q.push (.value x)).2 := quiet_pushValue q rfl
      refine added.trans (quiet_modifyOp fresh (fun _ => ⟨rfl, rfl⟩) (fun _ => rfl) ?_)
      intro op b' f found placed owner fits
      have size : q.nodes.size = p.nodes.size + 1 := Array.size_push ..
      have made : op.block = some b := by
        rw [node_push, if_neg (by omega)] at found
        have first := (node_push p _ p.nodes.size).symm.trans found
        rw [if_pos rfl] at first
        cases first
        rfl
      obtain rfl : b' = b := Option.some.inj (placed.symm.trans made)
      have same : (q.block b').function = f := by
        have before := pushed.ownerOf? (ownerOf?_eq known)
        rw [function_of_ownerOf? before]
        exact Option.some.inj ((added.ownerOf? before).symm.trans owner)
      refine ⟨fun h => ?_, fits.operands, fits.callee⟩
      cases h
      have new : (q.push (.value x)).2.node q.nodes.size = .value x := by rw [node_push, if_pos rfl]
      rw [← same]
      exact originOf?_eq (value?_eq_some.mpr new)
  rw [addOp_eq]
  exact pushed.trans (dressed.trans (quiet_modifyBlock here (fun _ => ⟨rfl, rfl⟩) fun _ =>
    ⟨rfl, rfl⟩))

end Program
end Relock
