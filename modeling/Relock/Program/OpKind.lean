/-!
# Kinds of operations

The closed set of operations a block may hold, with the three questions the analyses ask of a kind:
whether it calls, whether it ends a block, and whether its written form names a result.
-/

namespace Relock

/-- What an operation does. -/
inductive OpKind where
  | alloca | load | store | gep | cast | extract | insert | phi | cmp | binop
  | call | invoke | memcpy | memset
  | br | condbr | switch | ret | resume | unreachable
  deriving DecidableEq, Repr, Inhabited

namespace OpKind

/-- The word for a kind in program texts. -/
def name : OpKind → String
  | alloca => "alloca"
  | load => "load"
  | store => "store"
  | gep => "gep"
  | cast => "cast"
  | extract => "extract"
  | insert => "insert"
  | phi => "phi"
  | cmp => "cmp"
  | binop => "binop"
  | call => "call"
  | invoke => "invoke"
  | memcpy => "memcpy"
  | memset => "memset"
  | br => "br"
  | condbr => "condbr"
  | switch => "switch"
  | ret => "ret"
  | resume => "resume"
  | unreachable => "unreachable"

/-- Every kind. -/
def all : List OpKind :=
  [alloca, load, store, gep, cast, extract, insert, phi, cmp, binop, call, invoke, memcpy, memset,
    br, condbr, switch, ret, resume, unreachable]

/-- The kind that a word names. -/
def ofName? (word : String) : Option OpKind := all.find? fun k => k.name = word

/-- Calls and calls with an unwind edge. -/
def isCall : OpKind → Bool
  | call | invoke => true
  | _ => false

/-- Operations that may end a block. -/
def isTerminator : OpKind → Bool
  | br | condbr | switch | ret | resume | unreachable | invoke => true
  | _ => false

/-- Operations whose written form starts with a result and its type. -/
def hasResult : OpKind → Bool
  | alloca | load | gep | cast | extract | insert | phi | cmp | binop | call | invoke => true
  | _ => false

end OpKind
end Relock
