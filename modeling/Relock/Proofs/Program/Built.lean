import Relock.Proofs.Source.Decoder

/-!
# How programs come about

The builder touches a program in few ways: it takes a number for a node, changes a node in place, or
names what there is. Functions are made by naming them and by nothing else. `Built` lists these
ways, and what holds of all programs built so is shown by one induction. Loaded programs are built
(`built_of_load`), and so is what comes of any row of calls to the builder, those that no text leads
to among them (`built_of_calls`).
-/

namespace Relock

def Node.isFunction : Node → Bool
  | .function _ => true
  | _ => false

namespace Program

/-- A program that the builder makes. -/
inductive Built : Program → Prop where
  | empty (name : String) : Built (empty name)
  | push {p} (built : Built p) {n : Node} (other : n.isFunction = false) : Built (p.push n).2
  /-- A change in place leaves vacant numbers vacant, and functions functions. -/
  | modify {p} (built : Built p) (i : Nat) {change : Node → Node}
      (vacant : change .vacant = .vacant) (functions : ∀ n, (change n).isFunction = n.isFunction) :
      Built { p with nodes := p.nodes.modify i change }
  | declare {p} (built : Built p) {name : String} (new : p.functions.get? name = none) :
      Built { (p.push (.function { name := name, params := [], blocks := [],
                                   returns := .void })).2 with
        functions := p.functions.set name p.nodes.size }
  /-- A structure or a global gets its name. -/
  | named {p q} (built : Built p) (nodes : q.nodes = p.nodes)
      (functions : q.functions = p.functions) : Built q

variable {p : Program}

/-! ## The builder -/

namespace Built

theorem modifyFunction (built : p.Built) (f : FunctionId) (change : Function → Function) :
    (p.modifyFunction f change).Built :=
  built.modify f rfl fun n => by cases n <;> rfl

theorem modifyBlock (built : p.Built) (b : BlockId) (change : Block → Block) :
    (p.modifyBlock b change).Built :=
  built.modify b rfl fun n => by cases n <;> rfl

theorem modifyOp (built : p.Built) (o : OpId) (change : Operation → Operation) :
    (p.modifyOp o change).Built :=
  built.modify o rfl fun n => by cases n <;> rfl

theorem modifyValue (built : p.Built) (v : ValueId) (change : Value → Value) :
    (p.modifyValue v change).Built :=
  built.modify v rfl fun n => by cases n <;> rfl

theorem foldl {α : Type} {act : Program → α → Program} (one : ∀ {p}, p.Built → ∀ a, (act p a).Built)
    (row : List α) (built : p.Built) : (row.foldl act p).Built := by
  induction row generalizing p with
  | nil => exact built
  | cons a row ih => exact ih (one built a)

theorem addFunction (built : p.Built) (name : String) : (p.addFunction name).2.Built := by
  unfold Program.addFunction
  split
  next => exact built
  next new => exact built.declare new

theorem addParam (built : p.Built) (f : FunctionId) (name : String) (type : Ty) :
    (p.addParam f name type).2.Built :=
  (built.push rfl).modifyFunction f _

theorem attach (built : p.Built) (o : OpId) (operands : List ValueId) :
    (p.attach o operands).Built :=
  built.foldl (fun built v => (built.modifyOp o _).modifyValue v _) operands

theorem addOp (built : p.Built) (b : BlockId) (kind : OpKind) (operands : List ValueId)
    (result : Option (String × Ty)) :
    (p.addOp b kind operands result).2.Built := by
  have attached := (built.push (n := .operation
    { kind := kind, operands := [], result := none, block := some b, callee := .absent,
      targets := [], indices := []
      location := none }) rfl).attach p.nodes.size operands
  rw [addOp_eq]
  refine modifyBlock ?_ b _
  cases result with
  | none => exact attached
  | some typed => exact (attached.push rfl).modifyOp _ _

theorem link (built : p.Built) (src dst : BlockId) : (p.link src dst).Built := by
  unfold Program.link
  split
  next => exact built
  next => exact (built.modifyBlock src _).modifyBlock dst _

theorem addStrayOp (built : p.Built) (kind : OpKind) (operands : List ValueId) (named : Bool) :
    (p.addStrayOp kind operands named).Built := by
  have attached : ((p.pushOp none kind).2.attach p.nodes.size operands).Built :=
    (built.push rfl).attach _ operands
  cases named with
  | false => exact attached
  | true => exact attached.push rfl

/-! ## Programs from sources -/

theorem declareItem {β : Type} (built : p.Built) (item : Source.Item β) :
    (p.declareItem item).Built := by
  cases item with
  | struct name fields => exact built.named rfl rfl
  | global name type => exact (built.push rfl).named rfl rfl
  | function signature blocks =>
    have params := (built.addFunction signature.name).foldl
      (fun built (param : String × Ty) =>
        built.addParam (p.addFunction signature.name).1 param.1 param.2)
      signature.params
    exact params.modifyFunction _ _

theorem operandValues (scope : List (String × ValueId)) (operands : List Source.Operand)
    (built : p.Built) :
    (operandValues scope p operands).2.Built := by
  induction operands generalizing p with
  | nil => exact built
  | cons operand operands ih =>
    refine ih ?_
    cases operand with
    | constant n => exact built.push rfl
    | value name => exact built
    | function name => exact (built.addFunction name).push rfl

theorem wireOp (scope : List (String × ValueId)) (built : p.Built) (placed : OpId × Source.Op) :
    (wireOp scope p placed).Built := by
  have callee : (calleeValue scope p placed.2.callee).2.Built := by
    unfold calleeValue
    split
    next => exact built
    next => exact built.addFunction _
    next => exact built
  exact ((callee.operandValues scope placed.2.operands).modifyOp placed.1 _).attach placed.1 _

theorem layoutBlocks (f : FunctionId) (blocks : List Source.Block) {layout : Layout}
    (built : layout.program.Built) :
    (blocks.foldl (Layout.addBlock f) layout).program.Built := by
  have ops (b : BlockId) (ops : List Source.Op) {layout : Layout} (built : layout.program.Built) :
      (ops.foldl (Layout.addOp b) layout).program.Built := by
    induction ops generalizing layout with
    | nil => exact built
    | cons op ops ih =>
      exact ih ((built.addOp b op.kind [] op.result).modifyOp layout.program.nodes.size _)
  induction blocks generalizing layout with
  | nil => exact built
  | cons block blocks ih =>
    refine ih (ops layout.program.nodes.size block.ops ?_)
    exact (built.push rfl).modifyFunction f _

theorem addBody (built : p.Built) (f : FunctionId) (blocks : List Source.Block) :
    (p.addBody f blocks).Built := by
  refine foldl (fun built b => ?_) _
    (foldl (fun built => built.wireOp _) _ (layoutBlocks f blocks built))
  unfold linkBlock
  split
  next => exact built
  next => exact built.foldl (fun built dst => built.link b dst) _

theorem addItemBody (built : p.Built) (item : Source.Item Source.Block) :
    (p.addItemBody item).Built := by
  unfold Program.addItemBody
  split
  next =>
    split
    next => exact built.addBody _ _
    next => exact built
  next => exact built

end Built

theorem built_of_load {read : Sexp.Reader} {file text : String}
    (h : Program.loadWith read file text = .ok p) : p.Built := by
  obtain ⟨source, _, rfl⟩ := Program.source_of_load h
  exact Built.foldl Built.addItemBody _ (Built.foldl Built.declareItem _ (.empty source.name))

/-! ## Programs from calls -/

/-- A call to the builder. -/
inductive BuilderCall where
  | function (name : String)
  | global (name : String) (type : Ty)
  | param (f : FunctionId) (name : String) (type : Ty)
  | block (f : FunctionId) (label : String)
  | constant (n : Int) (type : Ty)
  | functionRef (f : FunctionId)
  | op (b : BlockId) (kind : OpKind) (operands : List ValueId) (result : Option (String × Ty))
  /-- An operation for a block that is not there. -/
  | strayOp (kind : OpKind) (operands : List ValueId) (named : Bool)
  | attach (o : OpId) (operands : List ValueId)
  | detach (o : OpId)
  | link (src dst : BlockId)
  | struct (name : String) (fields : List Ty)
  /-- A number without a node. -/
  | number

def call (p : Program) : BuilderCall → Program
  | .function name => (p.addFunction name).2
  | .global name type => (p.addGlobal name type).2
  | .param f name type => (p.addParam f name type).2
  | .block f label => (p.addBlock f label).2
  | .constant n type => (p.addConstant n type).2
  | .functionRef f => (p.addFunctionRef f).2
  | .op b kind operands result => (p.addOp b kind operands result).2
  | .strayOp kind operands named => p.addStrayOp kind operands named
  | .attach o operands => p.attach o operands
  | .detach o => p.detach o
  | .link src dst => p.link src dst
  | .struct name fields => p.setStruct name fields
  | .number => p.skip.2

theorem Built.call (built : p.Built) (call : BuilderCall) : (p.call call).Built := by
  cases call with
  | function name => exact built.addFunction name
  | global name type => exact (built.push rfl).named rfl rfl
  | param f name type => exact built.addParam f name type
  | block f label => exact (built.push rfl).modifyFunction f _
  | constant n type => exact built.push rfl
  | functionRef f => exact built.push rfl
  | op b kind operands result => exact built.addOp b kind operands result
  | strayOp kind operands named => exact built.addStrayOp kind operands named
  | attach o operands => exact built.attach o operands
  | detach o => exact built.modifyOp o _
  | link src dst => exact built.link src dst
  | struct name fields => exact built.named rfl rfl
  | number => exact built.push rfl

theorem built_of_calls (name : String) (calls : List BuilderCall) :
    (calls.foldl call (empty name)).Built :=
  Built.foldl Built.call calls (.empty name)

/-! ## Functions -/

/-- Every function is known by name. -/
theorem Built.mem_functionIds
    (built : p.Built) {f : FunctionId} (known : (p.node f).isFunction = true) :
    f ∈ p.functionIds := by
  induction built with
  | empty name =>
    have vacant : (Program.empty name).node f = .vacant := by
      cases f with
      | zero => rfl
      | succ f => rfl
    rw [vacant] at known
    cases known
  | @push p built n other ih =>
    rw [node_push] at known
    split at known
    next => cases other.symm.trans known
    next => exact ih known
  | modify built i vacant functions ih =>
    rw [node_modify _ _ vacant] at known
    split at known
    next => exact ih ((functions _).symm.trans known)
    next => exact ih known
  | @declare p built name new ih =>
    change f ∈ (p.functions.set name p.nodes.size).entries
    rw [entries_set_of_get?_none new]
    replace known :
        ((p.push (.function { name := name, params := [], blocks := [], returns := .void })).2.node
          f).isFunction = true := known
    rw [node_push] at known
    split at known
    next here => exact List.mem_append_right _ (List.mem_singleton.mpr here)
    next => exact List.mem_append_left _ (ih known)
  | named built nodes functions ih =>
    rw [node, nodes] at known
    rw [functionIds, functions]
    exact ih known

end Program
end Relock
