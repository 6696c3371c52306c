import Relock.Program.Basic

/-!
# Building programs

The operations that make a program node by node. Each takes the next number of the table for the
node it makes. Attaching an operand adds it to the operation and the use to the value in one step,
and linking two blocks adds the successor and the predecessor in one step, so that the two views of
each edge agree in every program built here.
-/

namespace Relock.Program

/-- A program without nodes. -/
def empty (name : String) : Program :=
  { name := name, nodes := #[.vacant], functions := [], globals := [], structs := [] }

/-- Takes the next number for a node. -/
def push (p : Program) (n : Node) : Nat × Program :=
  (p.nodes.size, { p with nodes := p.nodes.push n })

/-- Takes the next number without making a node. -/
def skip (p : Program) : Nat × Program := p.push .vacant

/-! ## Changing a node in place -/

def modifyFunction (p : Program) (id : FunctionId) (change : Function → Function) : Program :=
  { p with nodes := p.nodes.modify id fun
      | .function f => .function (change f)
      | n => n }

def modifyBlock (p : Program) (id : BlockId) (change : Block → Block) : Program :=
  { p with nodes := p.nodes.modify id fun
      | .block b => .block (change b)
      | n => n }

def modifyOp (p : Program) (id : OpId) (change : Operation → Operation) : Program :=
  { p with nodes := p.nodes.modify id fun
      | .operation o => .operation (change o)
      | n => n }

def modifyValue (p : Program) (id : ValueId) (change : Value → Value) : Program :=
  { p with nodes := p.nodes.modify id fun
      | .value v => .value (change v)
      | n => n }

/-! ## Adding nodes -/

/-- The function of a name, declared if there is none yet. -/
def addFunction (p : Program) (name : String) : FunctionId × Program :=
  match p.functions.get? name with
  | some f => (f, p)
  | none =>
    let (f, p) := p.push (.function { name := name, params := [], blocks := [], returns := .void })
    (f, { p with functions := p.functions.set name f })

/-- A global. An earlier global of the same name stays a node but loses its name to the new one. -/
def addGlobal (p : Program) (name : String) (type : Ty) : ValueId × Program :=
  let (v, p) := p.push (.value { name := name, type := type, origin := .global, uses := [] })
  (v, { p with globals := p.globals.set name v })

/-- A further parameter of a function. -/
def addParam (p : Program) (f : FunctionId) (name : String) (type : Ty) : ValueId × Program :=
  let (v, p) := p.push (.value { name := name, type := type, origin := .argument f, uses := [] })
  (v, p.modifyFunction f fun fn => { fn with params := fn.params ++ [v] })

/-- A further block of a function. -/
def addBlock (p : Program) (f : FunctionId) (label : String) : BlockId × Program :=
  let (b, p) := p.push (.block { name := label, function := f, ops := [], successors := [],
                                 predecessors := [] })
  (b, p.modifyFunction f fun fn => { fn with blocks := fn.blocks ++ [b] })

/-- A constant. Each use of a number in the text is a value of its own. -/
def addConstant (p : Program) (n : Int) (type : Ty) : ValueId × Program :=
  p.push (.value { name := toString n, type := type, origin := .constant n, uses := [] })

/-- A reference to a function as a value; each is a value of its own. -/
def addFunctionRef (p : Program) (f : FunctionId) : ValueId × Program :=
  let name := (p.function f).name
  p.push (.value { name := name, type := .func name, origin := .functionRef, uses := [] })

/-- Appends one operand to an operation and the use to the value. -/
def attachOne (p : Program) (o : OpId) (v : ValueId) : Program :=
  let use : Use := ⟨o, (p.op o).operands.length⟩
  (p.modifyOp o fun op => { op with operands := op.operands ++ [v] }).modifyValue v fun value =>
    { value with uses := value.uses ++ [use] }

/-- Appends operands to an operation, in order. -/
def attach (p : Program) (o : OpId) (operands : List ValueId) : Program :=
  operands.foldl (fun p v => p.attachOne o v) p

/-- An operation that stands in no block yet. -/
def pushOp (p : Program) (block : Option BlockId) (kind : OpKind) : OpId × Program :=
  p.push (.operation { kind := kind, operands := [], result := none, block := block,
                       callee := .absent, targets := [], indices := [], location := none })

/-- A further operation at the end of a block, with its operands and, if named, its result. -/
def addOp (p : Program) (b : BlockId) (kind : OpKind) (operands : List ValueId)
    (result : Option (String × Ty)) : OpId × Program :=
  let (o, p) := p.pushOp (some b) kind
  let p := p.attach o operands
  let p := match result with
    | none => p
    | some (name, type) =>
      let (v, p) := p.push (.value { name := name, type := type,
                                     origin := .result o (p.block b).function, uses := [] })
      p.modifyOp o fun op => { op with result := some v }
  (o, p.modifyBlock b fun block => { block with ops := block.ops ++ [o] })

/-- An operation for which there is no block. It takes its number, the uses of its operands and the
number of its result, and nothing holds it. -/
def addStrayOp (p : Program) (kind : OpKind) (operands : List ValueId) (named : Bool) : Program :=
  let (o, p) := p.pushOp none kind
  let p := p.attach o operands
  if named then p.skip.2 else p

/-- An edge of the control flow; a second edge between the same blocks adds nothing. -/
def link (p : Program) (src dst : BlockId) : Program :=
  if dst ∈ (p.block src).successors then p
  else
    let p := p.modifyBlock src fun b => { b with successors := b.successors ++ [dst] }
    p.modifyBlock dst fun b => { b with predecessors := b.predecessors ++ [src] }

/-- Sets the fields of a structure. -/
def setStruct (p : Program) (name : String) (fields : List Ty) : Program :=
  { p with structs := p.structs.set name fields }

/-- Takes an operation out of its block's hands: the operation no longer knows its block. -/
def detach (p : Program) (o : OpId) : Program := p.modifyOp o fun op => { op with block := none }

end Relock.Program
