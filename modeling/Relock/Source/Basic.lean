import Relock.Program.Basic

/-!
# Source modules

A program text after reading and checking: every name an operand uses is bound, every label a block
ends on exists, and each form has the parts it needs. `Program.ofSource` turns a source module into
a program graph and cannot fail.

Items keep their order in the text, since node numbers follow it. The type parameter of an item is
what stands for a block: an unread form while signatures are collected, a `Block` afterwards.
-/

namespace Relock

namespace Source

/-- An operand as written: a number, a value's name, or a function's name. -/
inductive Operand where
  | constant (n : Int)
  | value (name : String)
  | function (name : String)
  deriving DecidableEq, Repr, Inhabited

/-- A callee as written. -/
inductive Callee where
  | function (name : String)
  | value (name : String)
  deriving DecidableEq, Repr, Inhabited

/-- An operation as written. -/
structure Op where
  kind : OpKind
  result : Option (String × Ty)
  location : Option Location
  callee : Option Callee
  operands : List Operand
  indices : List (Option Int)
  targets : List String
  deriving DecidableEq, Repr, Inhabited

/-- A block as written. -/
structure Block where
  label : String
  ops : List Op
  deriving DecidableEq, Repr, Inhabited

/-- A function's name, parameters and result type. -/
structure Signature where
  name : String
  params : List (String × Ty)
  returns : Ty
  deriving DecidableEq, Repr, Inhabited

/-- A top-level item. A function without blocks is a declaration. -/
inductive Item (β : Type) where
  | struct (name : String) (fields : List Ty)
  | global (name : String) (type : Ty)
  | function (signature : Signature) (blocks : List β)

end Source

/-- A program text, read and checked. -/
structure Source where
  name : String
  items : List (Source.Item Source.Block)

end Relock
