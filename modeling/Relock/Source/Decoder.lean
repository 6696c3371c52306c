import Relock.Sexp.Reader
import Relock.Source.Basic
import Relock.Source.Error

/-!
# Loading program texts

`Source.ofSexp` reads a form as a program text. Faults are found in a fixed order, and the first one
is the answer: the module's name, the names of the structures, the items in order with their
signatures, then the bodies in order. In a body the blocks, their operations' kinds, locations and
results come first, then the operands of all operations, then the ends of the blocks. A name may
therefore be used before the text defines it, and a body may use every item of the module.

Forms are taken apart by index. A function here relies on the checks made before it, some of them in
another function: the parts of a structure are counted when the names of the structures are read,
and those of a block when the clauses of its function are.
-/

namespace Relock.Source

/-! ## Words -/

/-- The name of a symbol. -/
def symbolName (place : Place) : Sexp → Except Error String
  | .symbol name => .ok name
  | got => refuse place (.notSymbol got)

/-- A name, written as a symbol or a string. -/
def nameOf (place : Place) (form : Sexp) : Except Error String :=
  match form.name? with
  | some name => .ok name
  | none => refuse place (.notName form)

/-- An integer. -/
def integerOf (place : Place) : Sexp → Except Error Int
  | .int n => .ok n
  | got => refuse place (.notInteger got)

/-- A form with the tag and at least `least` parts, the tag among them. -/
def expectTagged (place : Place) (tag : String) (least : Nat) (form : Sexp) :
    Except Error Unit := do
  if form.head? ≠ some tag then refuse place (.notTagged tag form)
  if (← form.size) < least then refuse place (.tooShort tag (least - 1))

/-! ## Types -/

/-- The names of the integer types. -/
def integerTypes : List String :=
  let widths := ["1", "8", "16", "32", "64", "128", "size"]
  ["i", "u"].flatMap (fun sign => widths.map (sign ++ ·)) ++ ["bool", "char"]

/-- Integer types by name; a line feed at the end of the name is not looked at. -/
def isIntegerType (name : String) : Bool :=
  integerTypes.any fun t => name = t || name = t ++ "\n"

/-- The type that a name stands for. -/
def namedType (structs : List String) (place : Place) (name : String) : Except Error Ty :=
  if name = "?" || name = "_" then .ok .unknown
  else if name = "void" then .ok .void
  else if name ∈ structs then .ok (.struct name)
  else if isIntegerType name then .ok (.int name)
  else refuse place (.unknownType name)

/-- A type form. A pointer to an unknown type points to bytes. -/
def loadType (structs : List String) (place : Place) (form : Sexp) : Except Error Ty :=
  match form.symbol? with
  | some name => namedType structs place name
  | none => do
    if ← form.isTagged "ptr" 2 then
      let ⟨pointee, _⟩ ← form.part 1
      match ← loadType structs place pointee with
      | .unknown => return .ptr (.int "i8")
      | type => return .ptr type
    else if ← form.isTagged "array" 3 then
      let ⟨element, _⟩ ← form.part 2
      let element ← loadType structs place element
      return .array (← integerOf place (← form.part 1)) element
    else refuse place (.malformedType form)
termination_by sizeOf form

/-- A type, with another in the place of an unknown one. -/
def loadTypeOr (fallback : Ty) (structs : List String) (place : Place) (form : Sexp) :
    Except Error Ty := do
  match ← loadType structs place form with
  | .unknown => return fallback
  | type => return type

/-! ## Signatures -/

/-- The clauses of a function read so far. The type parameter is what stands for a block. -/
structure Clauses (β : Type) where
  params : List (String × Ty) := []
  returns : Ty := .void
  blocks : List β := []

/-- A `returns` clause. -/
def loadReturns (structs : List String) (place : Place) (clause : Sexp) : Except Error Ty := do
  if (← clause.size) ≠ 2 then refuse place (.notReturns clause)
  loadTypeOr .void structs place (← clause.part 1)

/-- A parameter of a declaration is a type; it is named by its place in the clause. -/
def loadDeclaredParam (structs : List String) (place : Place) (form : Sexp × Nat) :
    Except Error (String × Ty) := do
  return (s!"arg{form.2}", ← loadType structs place form.1)

/-- A parameter of a function is a name with a type. -/
def loadParam (structs : List String) (place : Place) (form : Sexp) :
    Except Error (String × Ty) := do
  if !(← form.isListOf 2) then refuse place (.notParameter form)
  let name ← symbolName place (← form.part 0)
  return (name, ← loadType structs place (← form.part 1))

/-- One clause of a declaration. -/
def loadDeclarationClause (structs : List String) (place : Place) (read : Clauses Sexp)
    (clause : Sexp) : Except Error (Clauses Sexp) :=
  match clause.head? with
  | some "params" => do
    let params ← (← clause.partsFrom 1).zipIdx.mapM (loadDeclaredParam structs place)
    return { read with params := read.params ++ params }
  | some "returns" => do return { read with returns := ← loadReturns structs place clause }
  | _ => refuse place (.notClause clause)

/-- One clause of a function. A block is looked at later. -/
def loadFunctionClause (structs : List String) (place : Place) (read : Clauses Sexp)
    (clause : Sexp) : Except Error (Clauses Sexp) :=
  match clause.head? with
  | some "params" => do
    let params ← (← clause.partsFrom 1).mapM (loadParam structs place)
    return { read with params := read.params ++ params }
  | some "returns" => do return { read with returns := ← loadReturns structs place clause }
  | some "block" => do
    expectTagged place "block" 2 clause
    return { read with blocks := read.blocks ++ [clause] }
  | _ => refuse place (.notClause clause)

/-! ## Items -/

/-- The names of the structures, in order. -/
def loadStructNames (file : Place) : List Sexp → Except Error (List String)
  | [] => .ok []
  | item :: items =>
    if item.head? = some "struct" then do
      expectTagged file "struct" 2 item
      let name ← nameOf .nowhere (← item.part 1)
      return name :: (← loadStructNames file items)
    else loadStructNames file items

/-- A structure. Its parts were counted when the names of the structures were read. -/
def loadStruct (structs : List String) (item : Sexp) : Except Error (Item Sexp) := do
  let name ← nameOf .nowhere (← item.part 1)
  let fields ← (← item.partsFrom 2).mapM (loadTypeOr (.int "?") structs (.struct name))
  return .struct name fields

/-- A global; its type may be left out. -/
def loadGlobal (structs : List String) (file : Place) (item : Sexp) :
    Except Error (Item Sexp) := do
  expectTagged file "global" 2 item
  let name ← nameOf .nowhere (← item.part 1)
  if 2 < (← item.size) then
    return .global name (← loadType structs (.global name) (← item.part 2))
  else return .global name .unknown

/-- A declaration, with `known` the names of the functions before it. -/
def loadDeclare (structs : List String) (file : Place) (known : List String) (item : Sexp) :
    Except Error (Item Sexp) := do
  expectTagged file "declare" 2 item
  let name ← nameOf .nowhere (← item.part 1)
  if name ∈ known then refuse (.declaration name) .functionTwice
  let read ← (← item.partsFrom 2).foldlM (loadDeclarationClause structs (.declaration name)) {}
  return .function ⟨name, read.params, read.returns⟩ []

/-- A function, with `known` the names of the functions before it. -/
def loadFunction (structs : List String) (file : Place) (known : List String) (item : Sexp) :
    Except Error (Item Sexp) := do
  expectTagged file "function" 2 item
  let name ← nameOf .nowhere (← item.part 1)
  if name ∈ known then refuse (.function name) .functionTwice
  let read ← (← item.partsFrom 2).foldlM (loadFunctionClause structs (.function name)) {}
  if read.blocks.isEmpty then refuse (.function name) .noBlocks
  return .function ⟨name, read.params, read.returns⟩ read.blocks

/-- The handler of a tag. Handlers are found by name and called with the item; the one for `body`
is meant for the loader itself, and takes more than that. -/
def handler? (structs : List String) (file : Place) (known : List String) :
    String → Option (Sexp → Except Error (Item Sexp))
  | "struct" => some (loadStruct structs)
  | "global" => some (loadGlobal structs file)
  | "declare" => some (loadDeclare structs file known)
  | "function" => some (loadFunction structs file known)
  | "body" => some fun _ => refuse .nowhere .reservedForm
  | _ => none

/-- One item. -/
def loadItem (structs : List String) (file : Place) (known : List String) (item : Sexp) :
    Except Error (Item Sexp) :=
  match item.head? with
  | none => refuse file (.notItem item)
  | some tag => match handler? structs file known tag with
    | none => refuse file (.unknownForm tag)
    | some handler => handler item

/-- The function names that an item adds. -/
def Item.functionNames {β : Type} : Item β → List String
  | function signature _ => [signature.name]
  | _ => []

/-- The names of the globals that an item adds. -/
def Item.globalNames {β : Type} : Item β → List String
  | global name _ => [name]
  | _ => []

/-- The items in order. -/
def loadItems (structs : List String) (file : Place) :
    (known : List String) → List Sexp → Except Error (List (Item Sexp))
  | _, [] => .ok []
  | known, form :: forms => do
    let item ← loadItem structs file known form
    return item :: (← loadItems structs file (known ++ item.functionNames) forms)

/-! ## Bodies: blocks, operations and results -/

/-- An operation with its operands still unread. -/
structure Draft where
  place : Place
  kind : OpKind
  result : Option (String × Ty)
  location : Option Location
  args : List Sexp

/-- A block with its operations' operands still unread. -/
structure DraftBlock where
  label : String
  ops : List Draft

/-- A location form. The directory is looked at first. -/
def loadLocation (place : Place) (form : Sexp) : Except Error Location := do
  if (← form.size) < 3 then refuse place .malformedLocation
  let directory ← if 3 < (← form.size) then nameOf place (← form.part 3) else pure ""
  let file ← nameOf place (← form.part 1)
  return { file := file, line := ← integerOf place (← form.part 2), directory := directory }

/-- Whether the last part of an operation is a location. -/
def hasLocation (form : Sexp) : Except Sexp.Crash Bool := do
  if 1 < (← form.size) then return (← form.last).head? = some "at" else return false

/-- Splits a location off the end of an operation. -/
def detachLocation (place : Place) (form : Sexp) : Except Error (Sexp × Option Location) := do
  if ← hasLocation form then
    let location ← loadLocation place (← form.last)
    return (.list (← form.parts).dropLast, some location)
  else return (form, none)

/-- The result of an operation. The name `_` means that the result is not kept; a stack slot's value
is its address. -/
def loadResult (structs : List String) (place : Place) (kind : OpKind) (body : Sexp) :
    Except Error (Option (String × Ty)) := do
  if !kind.hasResult then return none
  if (← body.size) < 3 then refuse place (.malformedResult kind)
  let name ← symbolName place (← body.part 1)
  let type ← loadType structs place (← body.part 2)
  let type := if kind = .alloca && type.isKnown then .ptr type else type
  return if name = "_" then none else some (name, type)

/-- An operation form. -/
def createOp (structs : List String) (place : Place) (form : Sexp) : Except Error Draft :=
  match form.head? with
  | none => refuse place (.notOperation form)
  | some tag => match OpKind.ofName? tag with
    | none => refuse place (.unknownOperation tag)
    | some kind => do
      let (body, location) ← detachLocation place form
      let result ← loadResult structs place kind body
      let args ← body.partsFrom (if kind.hasResult then 3 else 1)
      return { place := place, kind := kind, result := result, location := location, args := args }

/-- The operations of a block. `bound` holds the names that have a value in the function so far;
each may be given once. -/
def createOps (structs : List String) (place : Place) :
    (bound : List String) → List Sexp → Except Error (List Draft × List String)
  | bound, [] => .ok ([], bound)
  | bound, form :: forms => do
    let draft ← createOp structs place form
    let bound ← match draft.result with
      | none => pure bound
      | some (name, _) =>
        if name ∈ bound then refuse place (.valueTwice name) else pure (name :: bound)
    let (drafts, bound) ← createOps structs place bound forms
    return (draft :: drafts, bound)

/-- The blocks of a function, with the names that have a value at its end. The parts of a block were
counted when it was met among the clauses of its function. -/
def createBlocks (structs : List String) (function : String) :
    (labels bound : List String) → List Sexp → Except Error (List DraftBlock × List String)
  | _, bound, [] => .ok ([], bound)
  | labels, bound, form :: forms => do
    let label ← symbolName (.function function) (← form.part 1)
    if label ∈ labels then refuse (.function function) (.blockTwice label)
    let (ops, bound) ← createOps structs (.block function label) bound (← form.partsFrom 2)
    let (drafts, bound) ← createBlocks structs function (label :: labels) bound forms
    return ({ label := label, ops := ops } :: drafts, bound)

/-! ## Bodies: operands and control flow -/

/-- An operand. `names` holds the names that have a value here, of the function and the module. -/
def operandOf (names : List String) (place : Place) : Sexp → Except Error Operand
  | .int n => .ok (.constant n)
  | .symbol name => if name ∈ names then .ok (.value name) else refuse place (.unknownValue name)
  | .string name => .ok (.function name)
  | got => refuse place (.notOperand got)

/-- A callee: a function's name in quotes, or the name of a value that holds one. -/
def calleeOf (names : List String) (place : Place) : Sexp → Except Error Callee
  | .string name => .ok (.function name)
  | .symbol name => if name ∈ names then .ok (.value name) else refuse place (.unknownValue name)
  | got => refuse place (.notCallee got)

/-- The operands of an address operation: the base, then an index or a computed index each. -/
def indicesOf (names : List String) (place : Place) :
    List Sexp → Except Error (List (Option Int) × List Operand)
  | [] => .ok ([], [])
  | .int n :: forms => do
    let (indices, operands) ← indicesOf names place forms
    return (some n :: indices, operands)
  | form :: forms => do
    let operand ← operandOf names place form
    let (indices, operands) ← indicesOf names place forms
    return (none :: indices, operand :: operands)

/-- Whether the operands of an `invoke` have their shape. -/
def isInvoke (args : List Sexp) : Except Sexp.Crash Bool := do
  if args.length = 4 then return (← Sexp.nth args 1).isList else return false

/-- An operation with its operands read. -/
def wireOp (names : List String) (draft : Draft) : Except Error Op := do
  let place := draft.place
  let args := draft.args
  let arg (index : Nat) := Sexp.nth args index
  let values (forms : List Sexp) := forms.mapM (operandOf names place)
  let need (n : Nat) : Except Error Unit :=
    if args.length < n then refuse place (.tooFewOperands draft.kind n) else pure ()
  let op : Op := {
    kind := draft.kind, result := draft.result, location := draft.location
    callee := none, operands := [], indices := [], targets := [] }
  match draft.kind with
  | .alloca | .unreachable => return op
  | .load | .cast =>
    need 1
    return { op with operands := ← values (args.take 1) }
  | .store | .memcpy | .memset | .cmp | .binop =>
    need 2
    return { op with operands := ← values args }
  | .gep =>
    need 1
    let base ← operandOf names place (← arg 0)
    let (indices, operands) ← indicesOf names place (args.drop 1)
    return { op with operands := base :: operands, indices := indices }
  | .extract =>
    need 1
    let indices ← (args.drop 1).mapM (integerOf place)
    return { op with operands := ← values (args.take 1), indices := indices.map some }
  | .insert =>
    need 2
    let indices ← (args.drop 2).mapM (integerOf place)
    return { op with operands := ← values (args.take 2), indices := indices.map some }
  | .phi =>
    need 1
    return { op with operands := ← values args }
  | .call =>
    need 1
    let callee ← calleeOf names place (← arg 0)
    return { op with callee := some callee, operands := ← values (args.drop 1) }
  | .invoke =>
    if !(← isInvoke args) then refuse place .malformedInvoke
    let callee ← calleeOf names place (← arg 0)
    let operands ← values (← (← arg 1).parts)
    let normal ← symbolName place (← arg 2)
    let unwind ← symbolName place (← arg 3)
    return { op with callee := some callee, operands := operands, targets := [normal, unwind] }
  | .br =>
    need 1
    let target ← symbolName place (← arg 0)
    return { op with targets := [target] }
  | .condbr =>
    need 3
    let operands ← values (args.take 1)
    let yes ← symbolName place (← arg 1)
    let no ← symbolName place (← arg 2)
    return { op with operands := operands, targets := [yes, no] }
  | .switch =>
    need 2
    let operands ← values (args.take 1)
    return { op with operands := operands, targets := ← (args.drop 1).mapM (symbolName place) }
  | .ret | .resume => return { op with operands := ← values (args.take 1) }

/-- A block with its operands read. -/
def wireBlock (names : List String) (draft : DraftBlock) : Except Error Block := do
  return { label := draft.label, ops := ← draft.ops.mapM (wireOp names) }

/-- A block has to end in a terminator, whose labels have to be blocks of the function. -/
def checkEnd (function : String) (labels : List String) (block : Block) : Except Error Unit :=
  let place := Place.block function block.label
  match block.ops.getLast? with
  | some op =>
    if op.kind.isTerminator then
      op.targets.forM fun label =>
        if label ∈ labels then pure () else refuse place (.unknownBlock label)
    else refuse place .noTerminator
  | none => refuse place .noTerminator

/-- The body of a function. -/
def loadBody (structs globals : List String) (signature : Signature) (blocks : List Sexp) :
    Except Error (List Block) := do
  let params := signature.params.map (·.1)
  let (drafts, bound) ← createBlocks structs signature.name [] params blocks
  let blocks ← drafts.mapM (wireBlock (bound ++ globals))
  blocks.forM (checkEnd signature.name (blocks.map (·.label)))
  return blocks

/-! ## Modules -/

/-- An item with its body read. -/
def Item.loaded (structs globals : List String) : Item Sexp → Except Error (Item Block)
  | struct name fields => .ok (.struct name fields)
  | global name type => .ok (.global name type)
  | function signature blocks => do
    return .function signature (← loadBody structs globals signature blocks)

/-- Whether a module's first part is its name. -/
def hasName (parts : List Sexp) : Except Sexp.Crash Bool :=
  if parts.isEmpty then return false else do return !(← Sexp.nth parts 0).isList

/-- A module's name and items; without a name it is called `module`. -/
def loadName (file : Place) (parts : List Sexp) : Except Error (String × List Sexp) := do
  if ← hasName parts then return (← nameOf file (← Sexp.nth parts 0), parts.drop 1)
  else return ("module", parts)

/-- A module with its items read and their bodies still unread. The type parameter is what stands
for a block. -/
structure Outline (β : Type) where
  name : String
  structs : List String
  items : List (Item β)

/-- The names of the globals of a module. -/
def Outline.globals {β : Type} (outline : Outline β) : List String :=
  outline.items.flatMap Item.globalNames

/-- Reads a form as a module up to the bodies. -/
def Outline.ofSexp (file : String) (form : Sexp) : Except Error (Outline Sexp) := do
  let place := Place.file file
  expectTagged place "module" 1 form
  let (name, forms) ← loadName place (← form.partsFrom 1)
  let structs ← loadStructNames place forms
  return { name := name, structs := structs, items := ← loadItems structs place [] forms }

/-- Reads the bodies. -/
def Outline.source (outline : Outline Sexp) : Except Error Source := do
  let items ← outline.items.mapM (Item.loaded outline.structs outline.globals)
  return { name := outline.name, items := items }

/-- Reads a form as a program text. -/
def ofSexp (file : String) (form : Sexp) : Except Error Source := do
  (← Outline.ofSexp file form).source

/-- Reads a program text with a reader of forms; `file` is its name in messages. -/
def parseWith (read : Sexp.Reader) (file text : String) : Except Error Source :=
  match read text with
  | .error reason => refuse (.file file) (.unreadable reason)
  | .ok form => ofSexp file form

/-- Reads a program text. -/
def parse (file text : String) : Except Error Source := parseWith Sexp.reader file text

end Relock.Source
