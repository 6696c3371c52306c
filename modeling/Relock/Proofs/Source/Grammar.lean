import Relock.Source.Decoder

/-!
# The grammar of program texts

The loader takes forms apart by index, and checks their tags and lengths on the way. Here the same
texts are read by the shape of their forms: one equation for each form that a text may hold, and no
access that could go wrong. `Source.decode` is the whole of it. It is not run; it is what the proofs
about texts are about.
-/

namespace Relock.Source

/-! ## Types -/

/-- A type form. A pointer to an unknown type points to bytes. -/
def typeOf (structs : List String) (place : Place) : Sexp → Except Error Ty
  | .symbol name => namedType structs place name
  | .list [.symbol "ptr", pointee] => do
    match ← typeOf structs place pointee with
    | .unknown => return .ptr (.int "i8")
    | type => return .ptr type
  | .list [.symbol "array", length, element] => do
    let element ← typeOf structs place element
    return .array (← integerOf place length) element
  | form => refuse place (.malformedType form)

/-- A type, with another in the place of an unknown one. -/
def typeOr (fallback : Ty) (structs : List String) (place : Place) (form : Sexp) :
    Except Error Ty := do
  match ← typeOf structs place form with
  | .unknown => return fallback
  | type => return type

/-! ## Signatures -/

/-- A `returns` clause. -/
def returnsOf (structs : List String) (place : Place) (form : Sexp) : List Sexp → Except Error Ty
  | [type] => typeOr .void structs place type
  | _ => refuse place (.notReturns form)

/-- The parameters of a declaration are types; they are named by their place in the clause. -/
def declaredParams (structs : List String) (place : Place) :
    (index : Nat) → List Sexp → Except Error (List (String × Ty))
  | _, [] => .ok []
  | index, form :: forms => do
    let type ← typeOf structs place form
    return (s!"arg{index}", type) :: (← declaredParams structs place (index + 1) forms)

/-- A parameter of a function is a name with a type. -/
def paramOf (structs : List String) (place : Place) : Sexp → Except Error (String × Ty)
  | .list [name, type] => do
    let name ← symbolName place name
    return (name, ← typeOf structs place type)
  | got => refuse place (.notParameter got)

/-- One clause of a declaration. -/
def declarationClause (structs : List String) (place : Place) (read : Clauses (List Sexp))
    (form : Sexp) : Except Error (Clauses (List Sexp)) :=
  match form with
  | .list (.symbol "params" :: types) => do
    return { read with params := read.params ++ (← declaredParams structs place 0 types) }
  | .list (.symbol "returns" :: types) => do
    return { read with returns := ← returnsOf structs place form types }
  | _ => refuse place (.notClause form)

/-- One clause of a function. The contents of a block are read later. -/
def functionClause (structs : List String) (place : Place) (read : Clauses (List Sexp))
    (form : Sexp) : Except Error (Clauses (List Sexp)) :=
  match form with
  | .list (.symbol "params" :: params) => do
    return { read with params := read.params ++ (← params.mapM (paramOf structs place)) }
  | .list (.symbol "returns" :: types) => do
    return { read with returns := ← returnsOf structs place form types }
  | .list (.symbol "block" :: parts) =>
    if parts.isEmpty then refuse place (.tooShort "block" 1)
    else .ok { read with blocks := read.blocks ++ [parts] }
  | _ => refuse place (.notClause form)

/-! ## Items -/

/-- The name of an item: its first part, met in the file before the item has a place of its own. -/
def itemName (file : Place) (tag : String) : List Sexp → Except Error (String × List Sexp)
  | [] => refuse file (.tooShort tag 1)
  | name :: parts => do return (← nameOf .nowhere name, parts)

/-- The names of the structures, in order. -/
def structNames (file : Place) : List Sexp → Except Error (List String)
  | [] => .ok []
  | .list (.symbol "struct" :: parts) :: items => do
    let (name, _) ← itemName file "struct" parts
    return name :: (← structNames file items)
  | _ :: items => structNames file items

/-- One item, with `known` the names of the functions before it. -/
def itemOf (structs : List String) (file : Place) (known : List String) (form : Sexp) :
    Except Error (Item (List Sexp)) :=
  match form with
  | .list (.symbol "struct" :: parts) => do
    let (name, fields) ← itemName file "struct" parts
    return .struct name (← fields.mapM (typeOr (.int "?") structs (.struct name)))
  | .list (.symbol "global" :: parts) => do
    match ← itemName file "global" parts with
    | (name, type :: _) => return .global name (← typeOf structs (.global name) type)
    | (name, []) => return .global name .unknown
  | .list (.symbol "declare" :: parts) => do
    let (name, clauses) ← itemName file "declare" parts
    if name ∈ known then refuse (.declaration name) .functionTwice
    let read ← clauses.foldlM (declarationClause structs (.declaration name)) {}
    return .function ⟨name, read.params, read.returns⟩ []
  | .list (.symbol "function" :: parts) => do
    let (name, clauses) ← itemName file "function" parts
    if name ∈ known then refuse (.function name) .functionTwice
    let read ← clauses.foldlM (functionClause structs (.function name)) {}
    if read.blocks.isEmpty then refuse (.function name) .noBlocks
    return .function ⟨name, read.params, read.returns⟩ read.blocks
  | .list (.symbol "body" :: _) => refuse .nowhere .reservedForm
  | .list (.symbol tag :: _) => refuse file (.unknownForm tag)
  | got => refuse file (.notItem got)

/-- The items in order. -/
def itemsOf (structs : List String) (file : Place) :
    (known : List String) → List Sexp → Except Error (List (Item (List Sexp)))
  | _, [] => .ok []
  | known, form :: forms => do
    let item ← itemOf structs file known form
    return item :: (← itemsOf structs file (known ++ item.functionNames) forms)

/-! ## Bodies -/

/-- A location form. The directory is looked at first. -/
def locationOf (place : Place) : List Sexp → Except Error Location
  | file :: line :: rest => do
    let directory ← match rest with
      | directory :: _ => nameOf place directory
      | [] => pure ""
    let file ← nameOf place file
    return { file := file, line := ← integerOf place line, directory := directory }
  | _ => refuse place .malformedLocation

/-- Splits a location off the end of an operation's parts. -/
def splitLocation (place : Place) (parts : List Sexp) :
    Except Error (List Sexp × Option Location) :=
  match parts.getLast? with
  | some (.list (.symbol "at" :: at_)) => do return (parts.dropLast, some (← locationOf place at_))
  | _ => .ok (parts, none)

/-- The result of an operation and the parts after it. The name `_` means that the result is not
kept; a stack slot's value is its address. -/
def resultOf (structs : List String) (place : Place) (kind : OpKind) (parts : List Sexp) :
    Except Error (Option (String × Ty) × List Sexp) :=
  if !kind.hasResult then .ok (none, parts)
  else match parts with
    | name :: type :: args => do
      let name ← symbolName place name
      let type ← typeOf structs place type
      let type := if kind = .alloca && type.isKnown then .ptr type else type
      return (if name = "_" then none else some (name, type), args)
    | _ => refuse place (.malformedResult kind)

/-- An operation form. -/
def draftOf (structs : List String) (place : Place) (form : Sexp) : Except Error Draft :=
  match form with
  | .list (.symbol tag :: parts) =>
    match OpKind.ofName? tag with
    | none => refuse place (.unknownOperation tag)
    | some kind => do
      let (parts, location) ← splitLocation place parts
      let (result, args) ← resultOf structs place kind parts
      return { place := place, kind := kind, result := result, location := location, args := args }
  | got => refuse place (.notOperation got)

/-- The operations of a block. -/
def draftsOf (structs : List String) (place : Place) :
    (bound : List String) → List Sexp → Except Error (List Draft × List String)
  | bound, [] => .ok ([], bound)
  | bound, form :: forms => do
    let draft ← draftOf structs place form
    let bound ← match draft.result with
      | none => pure bound
      | some (name, _) =>
        if name ∈ bound then refuse place (.valueTwice name) else pure (name :: bound)
    let (drafts, bound) ← draftsOf structs place bound forms
    return (draft :: drafts, bound)

/-- The blocks of a function, with the names that have a value at its end. -/
def draftBlocksOf (structs : List String) (function : String) :
    (labels bound : List String) → List (List Sexp) → Except Error (List DraftBlock × List String)
  | _, bound, [] => .ok ([], bound)
  | labels, bound, parts :: blocks => do
    let label ← symbolName (.function function) (parts.headD (.list []))
    if label ∈ labels then refuse (.function function) (.blockTwice label)
    let (ops, bound) ← draftsOf structs (.block function label) bound (parts.drop 1)
    let (drafts, bound) ← draftBlocksOf structs function (label :: labels) bound blocks
    return ({ label := label, ops := ops } :: drafts, bound)

/-- An operation with its operands read. -/
def opOf (names : List String) (draft : Draft) : Except Error Op := do
  let place := draft.place
  let args := draft.args
  let values (forms : List Sexp) := forms.mapM (operandOf names place)
  let labels (forms : List Sexp) := forms.mapM (symbolName place)
  let need (n : Nat) : Except Error Unit :=
    if args.length < n then refuse place (.tooFewOperands draft.kind n) else pure ()
  let op : Op := {
    kind := draft.kind, result := draft.result, location := draft.location
    callee := none, operands := [], indices := [], targets := [] }
  match draft.kind with
  | .alloca | .unreachable => return op
  | .load | .cast =>
    need 1
    return { op with operands := ← values (args.take 1) }
  | .store | .memcpy | .memset | .cmp | .binop =>
    need 2
    return { op with operands := ← values args }
  | .gep =>
    need 1
    let base ← values (args.take 1)
    let (indices, operands) ← indicesOf names place (args.drop 1)
    return { op with operands := base ++ operands, indices := indices }
  | .extract =>
    need 1
    let indices ← (args.drop 1).mapM (integerOf place)
    return { op with operands := ← values (args.take 1), indices := indices.map some }
  | .insert =>
    need 2
    let indices ← (args.drop 2).mapM (integerOf place)
    return { op with operands := ← values (args.take 2), indices := indices.map some }
  | .phi =>
    need 1
    return { op with operands := ← values args }
  | .call =>
    match args with
    | [] => refuse place (.tooFewOperands draft.kind 1)
    | callee :: args =>
      let callee ← calleeOf names place callee
      return { op with callee := some callee, operands := ← values args }
  | .invoke =>
    match args with
    | [callee, .list args, normal, unwind] =>
      let callee ← calleeOf names place callee
      let operands ← values args
      let targets ← labels [normal, unwind]
      return { op with callee := some callee, operands := operands, targets := targets }
    | _ => refuse place .malformedInvoke
  | .br =>
    need 1
    return { op with targets := ← labels (args.take 1) }
  | .condbr =>
    need 3
    let operands ← values (args.take 1)
    return { op with operands := operands, targets := ← labels ((args.drop 1).take 2) }
  | .switch =>
    need 2
    let operands ← values (args.take 1)
    return { op with operands := operands, targets := ← labels (args.drop 1) }
  | .ret | .resume => return { op with operands := ← values (args.take 1) }

/-- A block with its operands read. -/
def blockOf (names : List String) (draft : DraftBlock) : Except Error Block := do
  return { label := draft.label, ops := ← draft.ops.mapM (opOf names) }

/-- The body of a function. -/
def bodyOf (structs globals : List String) (signature : Signature) (blocks : List (List Sexp)) :
    Except Error (List Block) := do
  let params := signature.params.map (·.1)
  let (drafts, bound) ← draftBlocksOf structs signature.name [] params blocks
  let blocks ← drafts.mapM (blockOf (bound ++ globals))
  blocks.forM (checkEnd signature.name (blocks.map (·.label)))
  return blocks

/-! ## Modules -/

/-- An item with its body read. -/
def Item.withBody (structs globals : List String) : Item (List Sexp) → Except Error (Item Block)
  | struct name fields => .ok (.struct name fields)
  | global name type => .ok (.global name type)
  | function signature blocks => do
    return .function signature (← bodyOf structs globals signature blocks)

/-- A module's name and items; without a name it is called `module`. -/
def splitName (file : Place) : List Sexp → Except Error (String × List Sexp)
  | [] => .ok ("module", [])
  | .list parts :: items => .ok ("module", .list parts :: items)
  | name :: items => do return (← nameOf file name, items)

/-- Reads a form as a module up to the bodies. -/
def Outline.decode (file : String) (form : Sexp) : Except Error (Outline (List Sexp)) :=
  let place := Place.file file
  match form with
  | .list (.symbol "module" :: parts) => do
    let (name, forms) ← splitName place parts
    let structs ← structNames place forms
    return { name := name, structs := structs, items := ← itemsOf structs place [] forms }
  | got => refuse place (.notTagged "module" got)

/-- Reads the bodies. -/
def Outline.decodeBodies (outline : Outline (List Sexp)) : Except Error Source := do
  let items ← outline.items.mapM (Item.withBody outline.structs outline.globals)
  return { name := outline.name, items := items }

/-- Reads a form as a program text. -/
def decode (file : String) (form : Sexp) : Except Error Source := do
  (← Outline.decode file form).decodeBodies

end Relock.Source
