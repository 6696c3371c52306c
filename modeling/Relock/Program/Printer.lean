import Relock.Program.Basic
import Relock.Text.Quoted

/-!
# Short texts of program nodes

How dumps and log lines show a node in passing.
-/

namespace Relock.Program

/-- A constant by its number, any other value by its name and node number. -/
def valueText (p : Program) (v : ValueId) : String :=
  match (p.value v).origin with
  | .constant n => s!"Value({n})"
  | _ => s!"Value(%{(p.value v).name}#{v})"

/-- An operation by its number, result and kind; a call also by its callee. -/
def opText (p : Program) (o : OpId) : String :=
  let op := p.op o
  let result := match op.result with
    | some v => s!"%{(p.value v).name} = "
    | none => ""
  let callee := if op.callee.name.isEmpty then "?" else op.callee.name
  let called := if op.isCall then " " ++ callee else ""
  s!"Operation#{o}({result}{op.kind.name}{called})"

def blockText (p : Program) (b : BlockId) : String :=
  s!"BasicBlock({(p.function (p.block b).function).name}:{(p.block b).name})"

def functionText (p : Program) (f : FunctionId) : String :=
  let fn := p.function f
  s!"Function({Text.quoted fn.name}" ++ (if fn.isDeclaration then " (decl))" else ")")

/-- The program by its name and number of functions. -/
def summaryText (p : Program) : String :=
  s!"Module({Text.quoted p.name}, functions={p.functions.length})"

end Relock.Program
