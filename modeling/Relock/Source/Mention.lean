import Relock.Source.Decoder

/-!
# Functions declared by being called

A function that the text neither defines nor declares is declared where it is first mentioned. Where
that is a call, the declaration is worth telling. `implicitDeclarations` lists these calls in the
order in which bodies are read, up to the first fault if there is one; the callee of an operation is
looked at before its other operands.
-/

namespace Relock.Source

/-- A call that declares its callee. -/
structure ImplicitDeclaration where
  place : Place
  name : String
  deriving DecidableEq, Repr, Inhabited

/-- The names known so far, the calls that declared some of them, and whether a fault was met. -/
structure Mentions where
  known : List String
  implicit : List ImplicitDeclaration := []
  stopped : Bool := false
  deriving Inhabited

/-- The function that an operation calls by name, if its form is complete enough to tell. -/
def Draft.calledName? (draft : Draft) : Option String :=
  match draft.kind, draft.args with
  | .call, .string name :: _ => some name
  | .invoke, [.string name, .list _, _, _] => some name
  | _, _ => none

/-- The functions that operands refer to. -/
def referredNames (operands : List Operand) : List String :=
  operands.filterMap fun
    | .function name => some name
    | _ => none

namespace Mentions

/-- Meets the callee of an operation. -/
def call (m : Mentions) (draft : Draft) : Mentions :=
  match draft.calledName? with
  | none => m
  | some name =>
    if name ∈ m.known then m
    else { m with known := name :: m.known, implicit := m.implicit ++ [⟨draft.place, name⟩] }

/-- Meets an operation. -/
def op (names : List String) (m : Mentions) (draft : Draft) : Mentions :=
  if m.stopped then m
  else
    let m := m.call draft
    match wireOp names draft with
    | .error _ => { m with stopped := true }
    | .ok read => { m with known := referredNames read.operands ++ m.known }

/-- Meets the body of an item. -/
def item (structs globals : List String) (m : Mentions) : Item Sexp → Mentions
  | .function signature blocks =>
    if m.stopped then m
    else match createBlocks structs signature.name [] (signature.params.map (·.1)) blocks with
      | .error _ => { m with stopped := true }
      | .ok (drafts, bound) =>
        let m := (drafts.flatMap (·.ops)).foldl (op (bound ++ globals)) m
        match loadBody structs globals signature blocks with
        | .error _ => { m with stopped := true }
        | .ok _ => m
  | _ => m

end Mentions

/-- The calls that declare their callee, in order. -/
def Outline.implicitDeclarations (outline : Outline Sexp) : List ImplicitDeclaration :=
  (outline.items.foldl (Mentions.item outline.structs outline.globals)
    { known := outline.items.flatMap Item.functionNames }).implicit

/-- The calls in a program text that declare their callee; a text without an outline has none. -/
def implicitDeclarations (file text : String) : List ImplicitDeclaration :=
  match Sexp.read text with
  | .error _ => []
  | .ok form => match Outline.ofSexp file form with
    | .error _ => []
    | .ok outline => outline.implicitDeclarations

end Relock.Source
