import Relock.Program.Builder
import Relock.Source.Decoder

/-!
# Programs from source modules

`Program.ofSource` makes the graph of a checked text. First come the items in order, then the bodies
in order. A body is made in two passes, as names may be used before they are defined: the blocks,
operations and results first, then the operands and callees, and last the control flow. A function
that the text only mentions is declared where it is first mentioned.
-/

namespace Relock.Program

/-- The structure, global or function of an item, without its body. -/
def declareItem {β : Type} (p : Program) : Source.Item β → Program
  | .struct name fields => p.setStruct name fields
  | .global name type => (p.addGlobal name type).2
  | .function signature _ =>
    let (f, p) := p.addFunction signature.name
    let p := signature.params.foldl (fun p (name, type) => (p.addParam f name type).2) p
    p.modifyFunction f fun fn => { fn with returns := signature.returns }

/-- A body with its blocks, operations and results made and nothing connected yet. `scope` gives the
names' values, the newest first; `placed` the operations with what the text says of them. -/
structure Layout where
  program : Program
  scope : List (String × ValueId)
  placed : List (OpId × Source.Op)

/-- Makes an operation and its result at the end of a block. -/
def Layout.addOp (b : BlockId) (layout : Layout) (op : Source.Op) : Layout :=
  let (o, p) := layout.program.addOp b op.kind [] op.result
  let p := p.modifyOp o fun made => { made with location := op.location }
  let scope := match (p.op o).result with
    | some v => ((p.value v).name, v) :: layout.scope
    | none => layout.scope
  { program := p, scope := scope, placed := layout.placed ++ [(o, op)] }

/-- Makes a block and its operations. -/
def Layout.addBlock (f : FunctionId) (layout : Layout) (block : Source.Block) : Layout :=
  let (b, p) := layout.program.addBlock f block.label
  block.ops.foldl (Layout.addOp b) { layout with program := p }

/-- The value of a name: the function's own, else the global. Checked texts hold no other names; one
would read as number 0, which is no node. -/
def lookup (p : Program) (scope : List (String × ValueId)) (name : String) : ValueId :=
  match scope.find? fun e => e.1 = name with
  | some e => e.2
  | none => (p.globals.get? name).getD 0

/-- The value of an operand. Numbers and functions are made anew for each operand. -/
def operandValue (scope : List (String × ValueId)) (p : Program) : Source.Operand →
    ValueId × Program
  | .constant n => p.addConstant n .unknown
  | .value name => (p.lookup scope name, p)
  | .function name =>
    let (f, p) := p.addFunction name
    p.addFunctionRef f

/-- The values of operands, made in order. -/
def operandValues (scope : List (String × ValueId)) (p : Program) : List Source.Operand →
    List ValueId × Program
  | [] => ([], p)
  | operand :: operands =>
    let (v, p) := operandValue scope p operand
    let (vs, p) := operandValues scope p operands
    (v :: vs, p)

/-- The callee of a call. -/
def calleeValue (scope : List (String × ValueId)) (p : Program) : Option Source.Callee →
    Callee × Program
  | none => (.absent, p)
  | some (.function name) =>
    let (f, p) := p.addFunction name
    (.direct f name, p)
  | some (.value name) =>
    let v := p.lookup scope name
    (.indirect v ("%" ++ (p.value v).name), p)

/-- Connects an operation: its callee first, then its operands in order. -/
def wireOp (scope : List (String × ValueId)) (p : Program) (placed : OpId × Source.Op) : Program :=
  let (o, op) := placed
  let (callee, p) := calleeValue scope p op.callee
  let (operands, p) := operandValues scope p op.operands
  let p := p.modifyOp o fun made => { made with callee := callee, indices := op.indices,
                                                targets := op.targets }
  p.attach o operands

/-- Links a block to the blocks its terminator may go to. -/
def linkBlock (f : FunctionId) (p : Program) (b : BlockId) : Program :=
  match p.terminator? b with
  | none => p
  | some o => ((p.op o).targets.filterMap (p.blockNamed? f)).foldl (fun p dst => p.link b dst) p

/-- Makes the body of a function. -/
def addBody (p : Program) (f : FunctionId) (blocks : List Source.Block) : Program :=
  let params := (p.function f).params.map fun v => ((p.value v).name, v)
  let layout := blocks.foldl (Layout.addBlock f) { program := p, scope := params.reverse,
                                                   placed := [] }
  let p := layout.placed.foldl (wireOp layout.scope) layout.program
  (p.function f).blocks.foldl (linkBlock f) p

/-- Makes the body of an item, if it has one. -/
def addItemBody (p : Program) : Source.Item Source.Block → Program
  | .function signature (block :: blocks) =>
    match p.functions.get? signature.name with
    | some f => p.addBody f (block :: blocks)
    | none => p
  | _ => p

/-- The graph of a checked text. -/
def ofSource (source : Source) : Program :=
  let p := source.items.foldl declareItem (empty source.name)
  source.items.foldl addItemBody p

/-- Reads a program text with a reader of forms; `file` is its name in messages. -/
def loadWith (read : Sexp.Reader) (file text : String) : Except Source.Error Program :=
  (Source.parseWith read file text).map ofSource

/-- Reads a program text. -/
def load (file text : String) : Except Source.Error Program := loadWith Sexp.reader file text

end Relock.Program
