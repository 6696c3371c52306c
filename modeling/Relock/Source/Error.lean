import Relock.Sexp.Access
import Relock.Program.OpKind

/-!
# What can be wrong with a program text

A `Source.Error` is a fault and the place where it was met. The wording stands in one place; whether
a fault is a name that nothing defines is asked of the fault. Two faults are not refusals of a text:
the reader itself goes wrong in them, in an access to a form or in the call of a handler.
-/

namespace Relock

namespace Source

/-- Where a fault was met. -/
inductive Place where
  | nowhere
  | file (name : String)
  | struct (name : String)
  | global (name : String)
  | declaration (name : String)
  | function (name : String)
  | block (owner label : String)
  deriving DecidableEq, Repr, Inhabited

/-- The place as messages show it. -/
def Place.text : Place → String
  | nowhere => ""
  | file name => name
  | struct name => "struct " ++ name
  | global name => "global " ++ name
  | declaration name => "declare " ++ name
  | function name => "function " ++ name
  | block owner label => owner ++ ":" ++ label

/-- What is wrong. -/
inductive Fault where
  /-- The text is not one form. -/
  | unreadable (reason : String)
  /-- The file of the text cannot be read. -/
  | noText (reason : String)
  | notTagged (tag : String) (got : Sexp)
  | tooShort (tag : String) (needed : Nat)
  | notSymbol (got : Sexp)
  | notName (got : Sexp)
  | notInteger (got : Sexp)
  | notItem (got : Sexp)
  | unknownForm (tag : String)
  /-- The form `body` is taken for internal use and cannot stand in a text: its handler is called
  with the form alone. -/
  | reservedForm
  /-- An access to the parts of a form went wrong. -/
  | crashed (crash : Sexp.Crash)
  | notClause (got : Sexp)
  | notParameter (got : Sexp)
  | notReturns (got : Sexp)
  | noBlocks
  | functionTwice
  | malformedType (got : Sexp)
  | blockTwice (label : String)
  | noTerminator
  | malformedLocation
  | notOperation (got : Sexp)
  | unknownOperation (tag : String)
  | malformedResult (kind : OpKind)
  | valueTwice (name : String)
  | tooFewOperands (kind : OpKind) (needed : Nat)
  | malformedInvoke
  | notCallee (got : Sexp)
  | notOperand (got : Sexp)
  | unknownType (name : String)
  | unknownValue (name : String)
  | unknownBlock (label : String)

/-- Whether the fault is a name that nothing defines. -/
def Fault.isUnknownName : Fault → Bool
  | unknownType _ | unknownValue _ | unknownBlock _ => true
  | _ => false

/-- Whether the text is refused. In the other faults the reader goes wrong. -/
def Fault.isTyped : Fault → Bool
  | reservedForm | crashed _ => false
  | _ => true

/-- The wording of each fault. -/
def Fault.message : Fault → String
  | unreadable reason => "S-expression syntax error: " ++ reason
  | noText reason => "cannot read IR file: " ++ reason
  | notTagged tag got => s!"expected ({tag} ...), got " ++ got.render
  | tooShort tag needed => s!"({tag} ...) needs at least {needed} argument(s)"
  | notSymbol got => "expected symbol, got " ++ got.render
  | notName got => "expected name, got " ++ got.render
  | notInteger got => "expected integer, got " ++ got.render
  | notItem got => "unexpected top-level item " ++ got.render
  | unknownForm tag => s!"unknown top-level form '{tag}'"
  | reservedForm => "_ModuleLoader._load_body() missing 1 required positional argument: 'blocks'"
  | crashed crash => crash.message
  | notClause got => "unexpected clause " ++ got.render
  | notParameter got => "parameter must be (name type), got " ++ got.render
  | notReturns got => "(returns T) takes exactly one type, got " ++ got.render
  | noBlocks => "function has no blocks (use declare)"
  | functionTwice => "function defined twice"
  | malformedType got => "malformed type " ++ got.render
  | blockTwice label => s!"block '{label}' defined twice"
  | noTerminator => "block does not end in a terminator"
  | malformedLocation => "(at FILE LINE [DIR]) expected"
  | notOperation got => "expected operation, got " ++ got.render
  | unknownOperation tag => s!"unknown operation '{tag}'"
  | malformedResult kind => s!"({kind.name} RESULT TYPE ...) expected"
  | valueTwice name => s!"value %{name} defined twice"
  | tooFewOperands kind needed => s!"({kind.name} ...) needs {needed} operand(s)"
  | malformedInvoke => "(invoke R T CALLEE (ARGS...) NORMAL UNWIND) expected"
  | notCallee got => "bad callee " ++ got.render
  | notOperand got => "unexpected operand " ++ got.render
  | unknownType name => s!"unknown type '{name}'"
  | unknownValue name => s!"unknown value %{name}"
  | unknownBlock label => s!"unknown block '{label}'"

/-- A fault and its place. -/
structure Error where
  place : Place
  fault : Fault

/-- The place and the fault; a place without text is left out. -/
def Error.message (e : Error) : String :=
  if e.place.text.isEmpty then e.fault.message else e.place.text ++ ": " ++ e.fault.message

/-- Refuses with a fault met at a place. -/
def refuse {α : Type} (place : Place) (fault : Fault) : Except Error α := .error ⟨place, fault⟩

/-- An access that goes wrong ends the reading, without a place. -/
instance : MonadLift (Except Sexp.Crash) (Except Error) where
  monadLift x := x.mapError fun crash => ⟨.nowhere, .crashed crash⟩

end Source
end Relock
