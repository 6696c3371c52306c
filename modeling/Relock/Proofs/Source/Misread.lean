import Relock.Proofs.Reading
import Relock.Proofs.Source.Reorder

/-!
# What a fault says of the text

A fault that a reader reports is there in the text. `Misread scope form fault` says so of a form and
all that stands in it: the form that a fault shows is part of the text and is not what was expected,
and a name that is called unknown is given nowhere in the text where it would be seen. No rule of
`Misread` is about reading: names, labels and clauses are taken off the forms as they are written.
-/

namespace Relock

/-! ## Forms as they are written -/

namespace Sexp

/-- The parts of a form with a tag. -/
def parts? (tag : String) : Sexp → Option (List Sexp)
  | list (symbol head :: parts) => if head = tag then some parts else none
  | _ => none

/-- The clauses of a function form that have a tag. -/
def clauses (tag : String) : Sexp → List (List Sexp)
  | list (symbol "function" :: _ :: clauses) => clauses.filterMap (parts? tag)
  | _ => []

/-- The name of a parameter. -/
def paramName? : Sexp → Option String
  | list [symbol name, _] => some name
  | _ => none

/-- The name that an operation form gives to its result. -/
def resultName? : Sexp → Option String
  | list (symbol tag :: symbol name :: _) =>
    if (OpKind.ofName? tag).any OpKind.hasResult && name ≠ "_" then some name else none
  | _ => none

/-- The label of a block. -/
def label? : List Sexp → Option String
  | symbol label :: _ => some label
  | _ => none

/-- The names that a function form gives to values: those of its parameters and results. -/
def valueNames (form : Sexp) : List String :=
  (form.clauses "params").flatMap (List.filterMap paramName?) ++
    (form.clauses "block").flatMap fun parts => (parts.drop 1).filterMap resultName?

def labels (form : Sexp) : List String := (form.clauses "block").filterMap label?

/-- The parts of an operation form before its location. -/
def unlocated (parts : List Sexp) : List Sexp :=
  match parts.getLast? with
  | some (list (symbol "at" :: _)) => parts.dropLast
  | _ => parts

/-- The parts of an operation form after its result and before its location. -/
def arguments (kind : OpKind) (parts : List Sexp) : List Sexp :=
  if kind.hasResult then (unlocated parts).drop 2 else unlocated parts

/-- The name of the function that a form defines or declares. -/
def functionName? (form : Sexp) : Option String :=
  (form.given? "function").or (form.given? "declare")

/-- The items of a module. -/
def moduleItems : Sexp → List Sexp
  | list (symbol "module" :: list parts :: items) => list parts :: items
  | list (symbol "module" :: _ :: items) => items
  | _ => []

end Sexp

namespace Source

/-- The names that can be used in an item. -/
structure Scope where
  structs : List String
  values : List String
  labels : List String

/-- What can be used in an item of a module. -/
def Scope.within (items : List Sexp) (item : Sexp) : Scope where
  structs := items.filterMap (Sexp.given? "struct")
  values := item.valueNames ++ items.filterMap (Sexp.given? "global")
  labels := item.labels

/-- The tags of items. -/
def itemTags : List String := ["struct", "global", "declare", "function"]

/-- A fault that a form has, or a form that stands in it. -/
inductive Misread (scope : Scope) : Sexp → Fault → Prop
  | symbol {got : Sexp} (other : ∀ name, got ≠ .symbol name) : Misread scope got (.notSymbol got)
  | name {got : Sexp} (other : got.name? = none) : Misread scope got (.notName got)
  | integer {got : Sexp} (other : ∀ n, got ≠ .int n) : Misread scope got (.notInteger got)
  | type {got : Sexp} (word : ∀ name, got ≠ .symbol name)
      (ptr : ∀ pointee, got ≠ .list [.symbol "ptr", pointee])
      (array : ∀ length element, got ≠ .list [.symbol "array", length, element]) :
      Misread scope got (.malformedType got)
  | unknownType {name : String} (builtin : name ∉ ["?", "_", "void"])
      (integer : isIntegerType name = false) (unknown : name ∉ scope.structs) :
      Misread scope (.symbol name) (.unknownType name)
  | tooShort {tag : String} (mem : tag ∈ "block" :: itemTags) :
      Misread scope (.list [.symbol tag]) (.tooShort tag 1)
  | clause {got : Sexp} (params : got.head? ≠ some "params")
      (returns : got.head? ≠ some "returns") :
      Misread scope got (.notClause got)
  | parameter {got : Sexp} (other : ∀ name type, got ≠ .list [name, type]) :
      Misread scope got (.notParameter got)
  | returns {got : Sexp} {types : List Sexp} (tagged : got.parts? "returns" = some types)
      (other : types.length ≠ 1) :
      Misread scope got (.notReturns got)
  | noBlocks {form : Sexp}
      (tagged : form.head? = some "function") (none : form.clauses "block" = []) :
      Misread scope form .noBlocks
  | blockTwice {form : Sexp} {label : String} (twice : 2 ≤ form.labels.count label) :
      Misread scope form (.blockTwice label)
  | valueTwice {form : Sexp} {name : String} (twice : 2 ≤ form.valueNames.count name) :
      Misread scope form (.valueTwice name)
  | noTerminator {parts : List Sexp}
      (opens : ∀ form ∈ (parts.drop 1).getLast?, ∀ kind : OpKind,
        form.head? = some kind.name → kind.isTerminator = false) :
      Misread scope (.list (.symbol "block" :: parts)) .noTerminator
  | location {parts : List Sexp} (short : parts.length < 2) :
      Misread scope (.list (.symbol "at" :: parts)) .malformedLocation
  | operation {got : Sexp} (other : got.head? = none) : Misread scope got (.notOperation got)
  | unknownOperation {form : Sexp} {tag : String} (tagged : form.head? = some tag)
      (other : OpKind.ofName? tag = none) :
      Misread scope form (.unknownOperation tag)
  | result {kind : OpKind} {parts : List Sexp} (has : kind.hasResult = true)
      (short : (Sexp.unlocated parts).length < 2) :
      Misread scope (.list (.symbol kind.name :: parts)) (.malformedResult kind)
  | tooFew {kind : OpKind} {parts : List Sexp} {needed : Nat}
      (short : (Sexp.arguments kind parts).length < needed) :
      Misread scope (.list (.symbol kind.name :: parts)) (.tooFewOperands kind needed)
  | invoke {parts : List Sexp}
      (other : ∀ callee args normal unwind,
        Sexp.arguments .invoke parts ≠ [callee, .list args, normal, unwind]) :
      Misread scope (.list (.symbol OpKind.invoke.name :: parts)) .malformedInvoke
  | callee {got : Sexp} (other : got.name? = none) : Misread scope got (.notCallee got)
  | operand {got : Sexp} (other : got.name? = none) (number : ∀ n, got ≠ .int n) :
      Misread scope got (.notOperand got)
  | unknownValue {name : String} (unknown : name ∉ scope.values) :
      Misread scope (.symbol name) (.unknownValue name)
  | unknownBlock {label : String} (unknown : label ∉ scope.labels) :
      Misread scope (.symbol label) (.unknownBlock label)
  | inside {items : List Sexp} {item : Sexp} {fault : Fault} (mem : item ∈ items)
      (h : Misread scope item fault) :
      Misread scope (.list items) fault

/-- What a form has wrong is a refusal. -/
theorem Misread.isTyped {scope : Scope} {form : Sexp} {fault : Fault}
    (h : Misread scope form fault) :
    fault.isTyped = true := by
  induction h with
  | inside _ _ ih => exact ih
  | _ => rfl

theorem Misread.ne_unreadable {scope : Scope} {form : Sexp} {fault : Fault}
    (h : Misread scope form fault) (reason : String) : fault ≠ .unreadable reason := by
  induction h with
  | inside _ _ ih => exact ih
  | _ => exact Fault.noConfusion

variable {scope : Scope}

/-- The errors that a form has. -/
def Misreads (scope : Scope) (form : Sexp) (e : Error) : Prop := Misread scope form e.fault

/-- The errors that one of a row of forms has. -/
def MisreadsAny (scope : Scope) (forms : List Sexp) (e : Error) : Prop :=
  ∃ form ∈ forms, Misread scope form e.fault

theorem Misreads.inside {items : List Sexp} {item : Sexp} (mem : item ∈ items) (e : Error)
    (h : Misreads scope item e) : Misreads scope (.list items) e := Misread.inside mem h

theorem Misreads.any {items : List Sexp} {item : Sexp} (mem : item ∈ items) (e : Error)
    (h : Misreads scope item e) : MisreadsAny scope items e := ⟨item, mem, h⟩

theorem MisreadsAny.subset {forms items : List Sexp} (sub : ∀ form ∈ forms, form ∈ items)
    (e : Error) (h : MisreadsAny scope forms e) : MisreadsAny scope items e := by
  obtain ⟨form, mem, h⟩ := h
  exact ⟨form, sub form mem, h⟩

theorem MisreadsAny.inside {forms items : List Sexp} (sub : ∀ form ∈ forms, form ∈ items)
    (e : Error) (h : MisreadsAny scope forms e) : Misreads scope (.list items) e := by
  obtain ⟨form, mem, h⟩ := h
  exact Misread.inside (sub form mem) h

/-- A row is misread where one of its forms is. -/
theorem fails_mapM {β : Type} {f : Sexp → Except Error β}
    (one : ∀ form, FailsOnly (Misreads scope form) (f form)) (forms : List Sexp) :
    FailsOnly (MisreadsAny scope forms) (forms.mapM f) :=
  .mapM fun form mem => (one form).mono (Misreads.any mem)

/-! ## Words and types -/

theorem fails_symbolName (place : Place) (form : Sexp) :
    FailsOnly (Misreads scope form) (symbolName place form) := by
  unfold symbolName
  split
  next => exact .ok _
  next other => exact .error (.symbol other)

theorem fails_nameOf (place : Place) (form : Sexp) :
    FailsOnly (Misreads scope form) (nameOf place form) := by
  unfold nameOf
  split
  next => exact .ok _
  next other => exact .error (.name other)

theorem fails_integerOf (place : Place) (form : Sexp) :
    FailsOnly (Misreads scope form) (integerOf place form) := by
  unfold integerOf
  split
  next => exact .ok _
  next other => exact .error (.integer other)

theorem fails_namedType (place : Place) (name : String) :
    FailsOnly (Misreads scope (.symbol name)) (namedType scope.structs place name) := by
  unfold namedType
  split
  next => exact .ok _
  next open_ =>
    split
    next => exact .ok _
    next void =>
      split
      next => exact .ok _
      next unknown =>
        split
        next => exact .ok _
        next integer =>
          refine .error (.unknownType ?_ (by simpa using integer) unknown)
          simpa [void] using open_

theorem fails_typeOf (place : Place) (form : Sexp) :
    FailsOnly (Misreads scope form) (typeOf scope.structs place form) := by
  fun_induction typeOf scope.structs place form with
  | case1 name => exact fails_namedType place name
  | case2 pointee ih =>
    refine (ih.mono (Misreads.inside (by simp))).bind fun type _ => ?_
    cases type <;> exact .ok _
  | case3 length element ih =>
    refine (ih.mono (Misreads.inside (by simp))).bind fun _ _ => ?_
    exact ((fails_integerOf place length).mono (Misreads.inside (by simp))).bind fun _ _ => .ok _
  | case4 form word ptr array => exact .error (.type word ptr array)

theorem fails_typeOr (fallback : Ty) (place : Place) (form : Sexp) :
    FailsOnly (Misreads scope form) (typeOr fallback scope.structs place form) :=
  (fails_typeOf place form).bind fun type _ => by cases type <;> exact .ok _

/-! ## Signatures -/

theorem fails_returnsOf (place : Place) {form : Sexp} {types : List Sexp}
    (tagged : form = .list (.symbol "returns" :: types)) :
    FailsOnly (Misreads scope form) (returnsOf scope.structs place form types) := by
  unfold returnsOf
  split
  next type =>
    rw [tagged]
    exact (fails_typeOr .void place type).mono (Misreads.inside (by simp))
  next other =>
    refine .error (.returns (by rw [tagged, Sexp.parts?, if_pos rfl]) fun one => ?_)
    obtain ⟨type, single⟩ := List.length_eq_one_iff.mp one
    exact other type single

theorem fails_declaredParams (place : Place) (index : Nat) (forms : List Sexp) :
    FailsOnly (MisreadsAny scope forms) (declaredParams scope.structs place index forms) := by
  induction forms generalizing index with
  | nil => exact .ok _
  | cons form forms ih =>
    refine ((fails_typeOf place form).mono (Misreads.any List.mem_cons_self)).bind fun _ _ => ?_
    exact ((ih (index + 1)).mono (MisreadsAny.subset fun _ => List.mem_cons_of_mem _)).bind fun _
      _ => .ok _

theorem fails_paramOf (place : Place) (form : Sexp) :
    FailsOnly (Misreads scope form) (paramOf scope.structs place form) := by
  unfold paramOf
  split
  next name type =>
    refine ((fails_symbolName place name).mono (Misreads.inside (by simp))).bind fun _ _ => ?_
    exact ((fails_typeOf place type).mono (Misreads.inside (by simp))).bind fun _ _ => .ok _
  next other => exact .error (.parameter other)

theorem fails_declarationClause (place : Place) (read : Clauses (List Sexp)) (form : Sexp) :
    FailsOnly (Misreads scope form) (declarationClause scope.structs place read form) := by
  unfold declarationClause
  split
  next types =>
    refine ((fails_declaredParams place 0 types).mono ?_).bind fun _ _ => .ok _
    exact MisreadsAny.inside fun _ => List.mem_cons_of_mem _
  next types => exact (fails_returnsOf place rfl).bind fun _ _ => .ok _
  next params returns => exact .error (.clause (Sexp.head?_ne params) (Sexp.head?_ne returns))

theorem fails_functionClause (place : Place) (read : Clauses (List Sexp)) (form : Sexp) :
    FailsOnly (Misreads scope form) (functionClause scope.structs place read form) := by
  unfold functionClause
  split
  next params =>
    refine ((fails_mapM (fails_paramOf place) params).mono ?_).bind fun _ _ => .ok _
    exact MisreadsAny.inside fun _ => List.mem_cons_of_mem _
  next types => exact (fails_returnsOf place rfl).bind fun _ _ => .ok _
  next parts =>
    split
    next empty =>
      rw [List.isEmpty_iff.mp empty]
      exact .error (.tooShort (by decide))
    next => exact .ok _
  next params returns _ => exact .error (.clause (Sexp.head?_ne params) (Sexp.head?_ne returns))

/-! ## Items -/

theorem fails_itemName (file : Place) {tag : String} (mem : tag ∈ itemTags) (parts : List Sexp) :
    FailsOnly (Misreads scope (.list (.symbol tag :: parts))) (itemName file tag parts) := by
  cases parts with
  | nil => exact .error (.tooShort (List.mem_cons_of_mem _ mem))
  | cons name parts =>
    exact ((fails_nameOf .nowhere name).mono (Misreads.inside (by simp))).bind fun _ _ => .ok _

/-- Whatever else the module says, a structure without a name is misread. -/
theorem fails_structNames (file : Place) (forms : List Sexp) :
    FailsOnly (fun e => ∃ form ∈ forms, ∀ scope, Misread scope form e.fault)
    (structNames file forms) := by
  fun_induction structNames file forms with
  | case1 => exact .ok _
  | case2 parts forms ih =>
    refine FailsOnly.bind (fun e failed => ⟨_, List.mem_cons_self, fun scope => ?_⟩) fun _ _ => ?_
    · exact fails_itemName file (by decide) parts e failed
    · refine (ih.mono fun e h => ?_).bind fun _ _ => .ok _
      obtain ⟨form, mem, h⟩ := h
      exact ⟨form, List.mem_cons_of_mem _ mem, h⟩
  | case3 form forms _ ih =>
    refine ih.mono fun e h => ?_
    obtain ⟨form, mem, h⟩ := h
    exact ⟨form, List.mem_cons_of_mem _ mem, h⟩

/-- The errors with which an item is refused after some functions. -/
inductive ItemRefused (scope : Scope) (known : List String) (form : Sexp) : Error → Prop
  | misread {e : Error} (h : Misread scope form e.fault) : ItemRefused scope known form e
  | notItem {place : Place} (other : form.head? = none) :
      ItemRefused scope known form ⟨place, .notItem form⟩
  | unknownForm {place : Place} {tag : String} (tagged : form.head? = some tag)
      (other : tag ∉ "body" :: itemTags) :
      ItemRefused scope known form ⟨place, .unknownForm tag⟩
  | functionTwice {place : Place} {name : String} (named : form.functionName? = some name)
      (mem : name ∈ known) :
      ItemRefused scope known form ⟨place, .functionTwice⟩
  | reserved (tagged : form.head? = some "body") :
      ItemRefused scope known form ⟨.nowhere, .reservedForm⟩

theorem functionName?_function
    {name : Sexp} {word : String} {parts : List Sexp} (named : name.name? = some word) :
    Sexp.functionName? (.list (.symbol "function" :: name :: parts)) = some word := by
  simp [Sexp.functionName?, Sexp.given?, named]

theorem functionName?_declare
    {name : Sexp} {word : String} {parts : List Sexp} (named : name.name? = some word) :
    Sexp.functionName? (.list (.symbol "declare" :: name :: parts)) = some word := by
  simp [Sexp.functionName?, Sexp.given?, named]

theorem eq_of_symbolName {place : Place} {form : Sexp} {name : String}
    (h : symbolName place form = .ok name) :
    form = .symbol name := by
  unfold symbolName at h
  split at h
  next =>
    cases h
    rfl
  next => cases h

theorem paramName?_of_paramOf {structs : List String} {place : Place} {form : Sexp}
    {param : String × Ty} (h : paramOf structs place form = .ok param) :
    some param.1 = form.paramName? := by
  unfold paramOf at h
  split at h
  next name type =>
    obtain ⟨word, named, h⟩ := bind_eq_ok h
    obtain ⟨type, _, h⟩ := bind_eq_ok h
    cases h
    rw [eq_of_symbolName named]
    rfl
  next => cases h

/-- One clause adds its parameters or its block. -/
theorem clause_of_functionClause
    {structs : List String} {place : Place} {form : Sexp} {read read' : Clauses (List Sexp)}
    (h : functionClause structs place read form = .ok read') :
    read'.params.map (·.1) =
        read.params.map (·.1) ++ (form.parts? "params").toList.flatMap
        (List.filterMap Sexp.paramName?) ∧
      read'.blocks = read.blocks ++ (form.parts? "block").toList := by
  have other {tag kind : String} (differ : tag ≠ kind) (parts : List Sexp) :
      Sexp.parts? kind (.list (.symbol tag :: parts)) = none := if_neg differ
  have same (tag : String) (parts : List Sexp) :
      Sexp.parts? tag (.list (.symbol tag :: parts)) = some parts :=
    if_pos rfl
  unfold functionClause at h
  split at h
  next params =>
    obtain ⟨read, each, h⟩ := bind_eq_ok h
    cases h
    have row : read.map (fun param => some param.1) = params.map Sexp.paramName? :=
      map_of_mapM paramName?_of_paramOf each
    have names := congrArg (List.filterMap id) row
    rw [List.filterMap_map, List.filterMap_map] at names
    rw [same, other (by decide)]
    refine ⟨?_, (List.append_nil _).symm⟩
    rw [List.map_append, Option.toList_some, List.flatMap_singleton]
    refine congrArg _ ?_
    rw [← List.filterMap_eq_map]
    exact names
  next types =>
    obtain ⟨type, _, h⟩ := bind_eq_ok h
    cases h
    rw [other (by decide), other (by decide)]
    exact ⟨(List.append_nil _).symm, (List.append_nil _).symm⟩
  next parts =>
    split at h
    next => cases h
    next =>
      cases h
      rw [same, other (by decide)]
      exact ⟨(List.append_nil _).symm, rfl⟩
  next => cases h

/-- The clauses of a function that are read are those of its form. -/
theorem clauses_of_foldlM {structs : List String} {place : Place} {clauses : List Sexp}
    {read read' : Clauses (List Sexp)}
    (h : clauses.foldlM (functionClause structs place) read = .ok read') :
    read'.params.map (·.1) =
        read.params.map (·.1) ++ (clauses.filterMap (Sexp.parts? "params")).flatMap
        (List.filterMap Sexp.paramName?) ∧
      read'.blocks = read.blocks ++ clauses.filterMap (Sexp.parts? "block") := by
  induction clauses generalizing read with
  | nil =>
    cases h
    exact ⟨(List.append_nil _).symm, (List.append_nil _).symm⟩
  | cons form clauses ih =>
    rw [List.foldlM_cons] at h
    obtain ⟨middle, first, h⟩ := bind_eq_ok h
    obtain ⟨params, blocks⟩ := clause_of_functionClause first
    obtain ⟨laterParams, laterBlocks⟩ := ih h
    rw [laterParams, laterBlocks, params, blocks]
    constructor
    · cases found : form.parts? "params" <;> simp [found]
    · cases found : form.parts? "block" <;> simp [found]

/-- What an item has from its form: its name, and for a function with a body its parameters and
blocks. -/
structure Item.Spelled (form : Sexp) (item : Item (List Sexp)) : Prop where
  names : item.functionNames = form.functionName?.toList
  body : ∀ signature blocks, item = .function signature blocks → blocks = form.clauses "block" ∧
    (∀ parts ∈ blocks, parts ≠ []) ∧
    (blocks = [] ∨ signature.params.map (·.1) = (form.clauses "params").flatMap
      (List.filterMap Sexp.paramName?))

theorem spelled_of_itemOf {structs known : List String} {file : Place} {form : Sexp}
    {item : Item (List Sexp)} (h : itemOf structs file known form = .ok item) :
    item.Spelled form := by
  have filled := filled_of_itemOf h
  have other {tag : String} (parts : List Sexp) (notFunction : "function" ≠ tag)
      (notDeclare : "declare" ≠ tag) :
      Sexp.functionName? (.list (.symbol tag :: parts)) = none := by
    cases parts with
    | nil => rfl
    | cons name parts => simp [Sexp.functionName?, Sexp.given?, notFunction.symm, notDeclare.symm]
  unfold itemOf at h
  split at h
  next parts =>
    obtain ⟨⟨name, fields⟩, _, h⟩ := bind_eq_ok h
    obtain ⟨types, _, h⟩ := bind_eq_ok h
    cases h
    exact ⟨by rw [other _ (by decide) (by decide)]; rfl, fun _ _ differ => by cases differ⟩
  next parts =>
    obtain ⟨⟨name, rest⟩, _, h⟩ := bind_eq_ok h
    have global : ∃ type, item = .global name type := by
      cases rest with
      | nil =>
        cases h
        exact ⟨_, rfl⟩
      | cons type more =>
        obtain ⟨type, _, h⟩ := bind_eq_ok h
        cases h
        exact ⟨_, rfl⟩
    obtain ⟨type, rfl⟩ := global
    exact ⟨by rw [other _ (by decide) (by decide)]; rfl, fun _ _ differ => by cases differ⟩
  next parts =>
    obtain ⟨⟨name, clauses⟩, named, h⟩ := bind_eq_ok h
    obtain ⟨_, h⟩ := guard_eq_ok h
    obtain ⟨read, _, h⟩ := bind_eq_ok h
    cases h
    obtain ⟨first, rfl, spelled⟩ := parts_of_itemName named
    refine ⟨by rw [functionName?_declare spelled]; rfl, ?_⟩
    rintro signature blocks ⟨⟩
    exact ⟨rfl, List.forall_mem_nil _, .inl rfl⟩
  next parts =>
    obtain ⟨⟨name, clauses⟩, named, h⟩ := bind_eq_ok h
    obtain ⟨_, h⟩ := guard_eq_ok h
    obtain ⟨read, folded, h⟩ := bind_eq_ok h
    obtain ⟨_, h⟩ := guard_eq_ok h
    cases h
    obtain ⟨first, rfl, spelled⟩ := parts_of_itemName named
    obtain ⟨params, blocks⟩ := clauses_of_foldlM folded
    refine ⟨by rw [functionName?_function spelled]; rfl, ?_⟩
    rintro signature blocks' ⟨⟩
    exact ⟨blocks, filled, .inr params⟩
  next => cases h
  next => cases h
  next => cases h

theorem refused_of_itemOf (file : Place) (known : List String) (form : Sexp) :
    FailsOnly (ItemRefused scope known form) (itemOf scope.structs file known form) := by
  have misread (e : Error) (h : Misreads scope form e) : ItemRefused scope known form e :=
    .misread h
  unfold itemOf
  split
  next parts =>
    refine ((fails_itemName file (by decide) parts).mono misread).bind fun read named => ?_
    obtain ⟨name, fields⟩ := read
    obtain ⟨first, rfl, _⟩ := parts_of_itemName named
    refine ((fails_mapM (fails_typeOr _ _) fields).mono fun e h => misread e ?_).bind fun _ _ =>
      .ok _
    exact MisreadsAny.inside (fun _ mem => List.mem_cons_of_mem _ (List.mem_cons_of_mem _ mem)) e h
  next parts =>
    refine ((fails_itemName file (by decide) parts).mono misread).bind fun read named => ?_
    obtain ⟨name, rest⟩ := read
    obtain ⟨first, rfl, _⟩ := parts_of_itemName named
    cases rest with
    | nil => exact .ok _
    | cons type more =>
      refine ((fails_typeOf _ type).mono fun e h => misread e ?_).bind fun _ _ => .ok _
      exact Misreads.inside (by simp) e h
  next parts =>
    refine ((fails_itemName file (by decide) parts).mono misread).bind fun read named => ?_
    obtain ⟨name, clauses⟩ := read
    obtain ⟨first, rfl, spelled⟩ := parts_of_itemName named
    refine .guard (fun mem => .functionTwice (functionName?_declare spelled) mem) fun _ => ?_
    refine (FailsOnly.foldlM (fun read clause mem => ?_) _).bind fun _ _ => .ok _
    refine (fails_declarationClause _ read clause).mono fun e h => misread e ?_
    exact Misreads.inside (List.mem_cons_of_mem _ (List.mem_cons_of_mem _ mem)) e h
  next parts =>
    refine ((fails_itemName file (by decide) parts).mono misread).bind fun read named => ?_
    obtain ⟨name, clauses⟩ := read
    obtain ⟨first, rfl, spelled⟩ := parts_of_itemName named
    refine .guard (fun mem => .functionTwice (functionName?_function spelled) mem) fun _ => ?_
    refine (FailsOnly.foldlM (fun read clause mem => ?_) _).bind fun read folded => ?_
    · refine (fails_functionClause _ read clause).mono fun e h => misread e ?_
      exact Misreads.inside (List.mem_cons_of_mem _ (List.mem_cons_of_mem _ mem)) e h
    · refine .guard (fun empty => misread _ (.noBlocks rfl ?_)) fun _ => .ok _
      rw [← List.isEmpty_iff.mp empty, (clauses_of_foldlM folded).2]
      rfl
  next => exact .error (.reserved rfl)
  next tag parts struct_ global declare function_ body =>
    refine .error (.unknownForm rfl fun mem => ?_)
    simp only [itemTags, List.mem_cons, List.not_mem_nil, or_false] at mem
    rcases mem with rfl | rfl | rfl | rfl | rfl
    · exact body rfl
    · exact struct_ rfl
    · exact global rfl
    · exact declare rfl
    · exact function_ rfl
  next other =>
    refine .error (.notItem ?_)
    exact Option.eq_none_iff_forall_ne_some.mpr fun tag => Sexp.head?_ne (other tag)

/-- The first item that is refused is the one that the error is about. -/
theorem itemsOf_eq_error_iff {structs known : List String} {file : Place} {forms : List Sexp}
    {e : Error} :
    itemsOf structs file known forms = .error e ↔
      ∃ before form after items, forms = before ++ form :: after ∧
        itemsOf structs file known before = .ok items ∧
        itemOf structs file (known ++ items.flatMap Item.functionNames) form = .error e := by
  induction forms generalizing known with
  | nil =>
    refine ⟨fun h => (by cases h), ?_⟩
    rintro ⟨before, form, after, items, parts, _⟩
    cases before <;> cases parts
  | cons first forms ih =>
    rw [itemsOf, bind_eq_error_iff]
    constructor
    · rintro (failed | ⟨item, one, h⟩)
      · refine ⟨[], first, forms, [], rfl, rfl, ?_⟩
        rw [List.flatMap_nil, List.append_nil]
        exact failed
      · obtain later | ⟨_, _, done⟩ := bind_eq_error_iff.mp h
        · obtain ⟨before, form, after, items, rfl, read, failed⟩ := ih.mp later
          refine ⟨first :: before, form, after, item :: items, rfl, ?_, ?_⟩
          · rw [itemsOf, one]
            simp only [read, bind, Except.bind]
            rfl
          · rw [List.flatMap_cons, ← List.append_assoc]
            exact failed
        · cases done
    · rintro ⟨before, form, after, items, parts, read, failed⟩
      cases before with
      | nil =>
        cases parts
        cases read
        rw [List.flatMap_nil, List.append_nil] at failed
        exact .inl failed
      | cons _ before =>
        cases parts
        obtain ⟨item, one, read⟩ := bind_eq_ok read
        obtain ⟨items', more, read⟩ := bind_eq_ok read
        cases read
        rw [List.flatMap_cons, ← List.append_assoc] at failed
        exact .inr ⟨item, one,
          bind_eq_error_iff.mpr (.inl (ih.mpr ⟨before, form, after, items', rfl, more, failed⟩))⟩

end Source
end Relock
