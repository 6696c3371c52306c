import Relock.Keyed
import Relock.Order
import Relock.Program.OpKind
import Relock.Program.Ty

/-!
# Program graphs

A program is a table of nodes: functions, blocks, operations and values. A node's number is its
index in the table, so numbers are distinct across all kinds of nodes and grow in order of creation;
number 0 is never a node. Nodes refer to each other by number, since uses, calls and control flow
make cycles. A node is never removed.

Operations list their operands, and every value lists its uses: `⟨o, i⟩` is a use of `v` when
operand `i` of operation `o` is `v`. The builder operations keep the two in step.
-/

namespace Relock

abbrev ValueId := Nat
abbrev OpId := Nat
abbrev BlockId := Nat
abbrev FunctionId := Nat

/-- A position in the sources the program was compiled from. -/
structure Location where
  file : String
  line : Int
  directory : String
  deriving DecidableEq, Repr, Inhabited

namespace Location

/-- Code of the project under analysis is compiled in a directory; library code has none. -/
def isLocal (loc : Location) : Bool := !loc.directory.isEmpty

/-- The position as reports show it. -/
def text (loc : Location) : String := s!"{loc.file}:{loc.line}"

end Location

/-- An operand place: operand `index` of operation `op`. -/
structure Use where
  op : OpId
  index : Nat
  deriving DecidableEq, Repr, Inhabited

/-- Where a value comes from. -/
inductive Origin where
  | argument (owner : FunctionId)
  | result (op : OpId) (owner : FunctionId)
  | constant (n : Int)
  | global
  | functionRef
  deriving DecidableEq, Repr, Inhabited

/-- Anything that can be an operand. -/
structure Value where
  name : String
  type : Ty
  origin : Origin
  uses : List Use
  deriving DecidableEq, Repr, Inhabited

/-- What a call calls. `name` is the callee as written. -/
inductive Callee where
  | absent
  | direct (function : FunctionId) (name : String)
  | indirect (value : ValueId) (name : String)
  deriving DecidableEq, Repr, Inhabited

/-- One operation. `indices` holds the immediate indices of an address or field operation, with
`none` for one that is computed; `targets` the labels a terminator may go to. The callee is not an
operand. -/
structure Operation where
  kind : OpKind
  operands : List ValueId
  result : Option ValueId
  block : Option BlockId
  callee : Callee
  targets : List String
  indices : List (Option Int)
  location : Option Location
  deriving DecidableEq, Repr, Inhabited

/-- A basic block. -/
structure Block where
  name : String
  function : FunctionId
  ops : List OpId
  successors : List BlockId
  predecessors : List BlockId
  deriving DecidableEq, Repr, Inhabited

/-- A function; one without blocks is a declaration. -/
structure Function where
  name : String
  params : List ValueId
  blocks : List BlockId
  returns : Ty
  deriving DecidableEq, Repr, Inhabited

/-- An entry of the node table. A number that was taken without making a node is `vacant`. -/
inductive Node where
  | vacant
  | function (f : Function)
  | block (b : Block)
  | operation (o : Operation)
  | value (v : Value)
  deriving DecidableEq, Repr, Inhabited

/-- A program. -/
structure Program where
  name : String
  nodes : Array Node
  functions : Keyed String FunctionId
  globals : Keyed String ValueId
  structs : Keyed String (List Ty)
  deriving Inhabited

namespace Callee

/-- The callee as written; empty when there is none. -/
def name : Callee → String
  | absent => ""
  | direct _ name => name
  | indirect _ name => name

/-- The function of a direct call. -/
def function? : Callee → Option FunctionId
  | direct f _ => some f
  | _ => none

/-- The value an indirect call goes through. -/
def value? : Callee → Option ValueId
  | indirect v _ => some v
  | _ => none

end Callee

namespace Origin

/-- The operation that defines a result. -/
def definingOp? : Origin → Option OpId
  | result op _ => some op
  | _ => none

/-- The function that an argument or a result belongs to. -/
def owner? : Origin → Option FunctionId
  | argument f => some f
  | result _ f => some f
  | _ => none

/-- The word for a value's origin in dumps. -/
def kind : Origin → String
  | argument _ => "argument"
  | result _ _ => "result"
  | constant _ => "constant"
  | global => "global"
  | functionRef => "function-ref"

end Origin

namespace Operation

def isCall (o : Operation) : Bool := o.kind.isCall

/-- The function that a call statically goes to. -/
def target? (o : Operation) : Option FunctionId := if o.kind.isCall then o.callee.function?
    else none

/-- The arguments of a call; other operations have none. -/
def args (o : Operation) : List ValueId := if o.kind.isCall then o.operands else []

end Operation

namespace Function

def isDeclaration (f : Function) : Bool := f.blocks.isEmpty

/-- The block at which control enters. -/
def entryBlock? (f : Function) : Option BlockId := f.blocks.head?

end Function

namespace Program

/-! ## Nodes by number -/

/-- The node with a number; `vacant` for a number that no node has. -/
def node (p : Program) (id : Nat) : Node := p.nodes.getD id .vacant

def value? (p : Program) (id : ValueId) : Option Value :=
  match p.node id with
  | .value v => some v
  | _ => none

def op? (p : Program) (id : OpId) : Option Operation :=
  match p.node id with
  | .operation o => some o
  | _ => none

def block? (p : Program) (id : BlockId) : Option Block :=
  match p.node id with
  | .block b => some b
  | _ => none

def function? (p : Program) (id : FunctionId) : Option Function :=
  match p.node id with
  | .function f => some f
  | _ => none

/-- The value with a number. A number that no value has reads as the default value; no number held
by a program built by the builder operations is such. -/
def value (p : Program) (id : ValueId) : Value := (p.value? id).getD default

/-- The operation with a number, as `value` reads values. -/
def op (p : Program) (id : OpId) : Operation := (p.op? id).getD default

/-- The block with a number, as `value` reads values. -/
def block (p : Program) (id : BlockId) : Block := (p.block? id).getD default

/-- The function with a number, as `value` reads values. -/
def function (p : Program) (id : FunctionId) : Function := (p.function? id).getD default

/-! ## Walks -/

/-- The functions in order of creation. -/
def functionIds (p : Program) : List FunctionId := p.functions.entries

/-- The functions with a body, in order of creation. -/
def definedFunctions (p : Program) : List FunctionId :=
  p.functionIds.filter fun f => !(p.function f).isDeclaration

/-- The operations of a function in program order. -/
def opsOf (p : Program) (f : FunctionId) : List OpId :=
  (p.function f).blocks.flatMap fun b => (p.block b).ops

/-- The calls of a function in program order. -/
def callsOf (p : Program) (f : FunctionId) : List OpId :=
  (p.opsOf f).filter fun o => (p.op o).isCall

/-- The operations of all defined functions in program order. -/
def allOps (p : Program) : List OpId := p.definedFunctions.flatMap p.opsOf

/-- The function that an operation stands in. -/
def functionOf? (p : Program) (o : OpId) : Option FunctionId :=
  (p.op o).block.map fun b => (p.block b).function

/-- The name of the function that an operation stands in. -/
def functionNameOf (p : Program) (o : OpId) : Option String :=
  (p.functionOf? o).map fun f => (p.function f).name

/-- The block that a label names in a function; of several with the label, the last. -/
def blockNamed? (p : Program) (f : FunctionId) (label : String) : Option BlockId :=
  (p.function f).blocks.reverse.find? fun b => (p.block b).name = label

/-- The operation that defines a value, if it is a result. -/
def definingOp? (p : Program) (v : ValueId) : Option OpId := (p.value v).origin.definingOp?

/-- The operation that ends a block. -/
def terminator? (p : Program) (b : BlockId) : Option OpId :=
  (p.block b).ops.getLast?.filter fun o => (p.op o).kind.isTerminator

/-- The values that the globals, the parameters and the operations of a program hold, as a set. -/
def values (p : Program) : List ValueId :=
  let held (o : OpId) : List ValueId :=
    (p.op o).operands ++ (p.op o).result.toList ++ (p.op o).callee.value?.toList
  idSet (p.globals.entries ++ p.functionIds.flatMap (fun f =>
    (p.function f).params ++ (p.opsOf f).flatMap held))

/-- The first value of a name that belongs to a function. -/
def valueNamed? (p : Program) (owner name : String) : Option ValueId :=
  p.values.find? fun v => (p.value v).name = name && (p.value v).origin.owner?.any fun f =>
    (p.function f).name = owner

/-- The first global of a name. -/
def globalNamed? (p : Program) (name : String) : Option ValueId :=
  p.values.find? fun v => (p.value v).name = name && (p.value v).origin = .global

/-- The fields of a structure; a name that was never declared has none. -/
def structFields (p : Program) (name : String) : List Ty := (p.structs.get? name).getD []

end Program
end Relock
