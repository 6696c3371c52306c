import Mathlib.Data.List.Basic
import Relock.Proofs.Reading
import Relock.Proofs.Source.Grammar

/-!
# The loader reads the grammar

`Source.ofSexp` takes forms apart by index, and an index may be out of range. Here it is shown equal
to `Source.decode`, which has no access that could go wrong: every index is behind a check. Most
checks stand right before their accesses. Two do not, and each is an invariant here: the parts of a
structure are counted when the names of the structures are read (`Counted`), and those of a block
when the clauses of its function are (`Item.Filled`).
-/

namespace Relock
namespace Sexp

theorem symbol?_eq_none {form : Sexp} (h : ∀ name, form ≠ .symbol name) : form.symbol? = none := by
  cases form with
  | symbol name => exact absurd rfl (h name)
  | _ => rfl

theorem eq_of_head? {form : Sexp} {tag : String} (h : form.head? = some tag) :
    ∃ parts, form = .list (.symbol tag :: parts) := by
  unfold head? at h
  split at h
  next name parts =>
    cases h
    exact ⟨parts, rfl⟩
  next => cases h

/-- A form that is no list with a tag at its head does not have the tag. -/
theorem head?_ne {form : Sexp} {tag : String}
    (other : ∀ parts, form = .list (.symbol tag :: parts) → False) :
    form.head? ≠ some tag := fun tagged => (eq_of_head? tagged).elim other

/-- A form of another shape is told apart without an access to it. -/
theorem isTagged_eq_false {form : Sexp} {tag : String} {count : Nat}
    (h : ∀ parts, form = .list (.symbol tag :: parts) → parts.length + 1 ≠ count) :
    form.isTagged tag count = .ok false := by
  unfold isTagged
  split
  next tagged =>
    obtain ⟨parts, rfl⟩ := eq_of_head? tagged
    exact congrArg Except.ok (decide_eq_false (h parts rfl))
  next => rfl

theorem isListOf_eq_false {form : Sexp} {count : Nat}
    (h : ∀ parts, form = .list parts → parts.length ≠ count) : form.isListOf count = .ok false := by
  cases form with
  | list parts => exact congrArg Except.ok (decide_eq_false (h parts rfl))
  | _ => rfl

end Sexp

namespace Source

/-! ## Types and signatures -/

section Types

variable (structs : List String) (place : Place)

theorem loadType_eq (form : Sexp) : loadType structs place form = typeOf structs place form := by
  fun_induction typeOf structs place form with
  | case1 name =>
    rw [loadType]
    rfl
  | case2 pointee ih =>
    rw [loadType, ← ih]
    rfl
  | case3 length element ih =>
    rw [loadType, ← ih]
    rfl
  | case4 form word pointer row =>
    have notPointer : form.isTagged "ptr" 2 = .ok false := by
      refine Sexp.isTagged_eq_false fun parts same two => ?_
      obtain ⟨pointee, rfl⟩ := List.length_eq_one_iff.mp (Nat.succ.inj two)
      exact pointer pointee same
    have notRow : form.isTagged "array" 3 = .ok false := by
      refine Sexp.isTagged_eq_false fun parts same three => ?_
      obtain ⟨length, element, rfl⟩ := List.length_eq_two.mp (Nat.succ.inj three)
      exact row length element same
    rw [loadType, Sexp.symbol?_eq_none word, notPointer, notRow]
    rfl

theorem loadTypeOr_eq (fallback : Ty) (form : Sexp) :
    loadTypeOr fallback structs place form = typeOr fallback structs place form := by
  rw [loadTypeOr, loadType_eq]
  rfl

theorem loadReturns_eq (types : List Sexp) :
    loadReturns structs place (.list (.symbol "returns" :: types)) =
      returnsOf structs place (.list (.symbol "returns" :: types)) types := by
  cases types with
  | nil => rfl
  | cons type types =>
    cases types with
    | nil => exact loadTypeOr_eq structs place .void type
    | cons => rfl

theorem loadParam_eq (form : Sexp) : loadParam structs place form = paramOf structs place form := by
  unfold paramOf
  split
  next name type =>
    rw [← loadType_eq]
    rfl
  next other =>
    have notPair : form.isListOf 2 = .ok false := by
      refine Sexp.isListOf_eq_false fun parts same two => ?_
      obtain ⟨name, type, rfl⟩ := List.length_eq_two.mp two
      exact other name type same
    rw [loadParam, notPair]
    rfl

theorem mapM_loadDeclaredParam (forms : List Sexp) (index : Nat) :
    (forms.zipIdx index).mapM (loadDeclaredParam structs place) =
      declaredParams structs place index forms := by
  induction forms generalizing index with
  | nil => rfl
  | cons form forms ih =>
    rw [List.zipIdx_cons, List.mapM_cons, ih, loadDeclaredParam, loadType_eq, declaredParams]
    cases typeOf structs place form <;> rfl

end Types

/-- The form of a block with the given parts. -/
def blockForm (parts : List Sexp) : Sexp := .list (.symbol "block" :: parts)

/-- Clauses with another thing for each block. -/
def Clauses.map {β γ : Type} (f : β → γ) (read : Clauses β) : Clauses γ :=
  { params := read.params, returns := read.returns, blocks := read.blocks.map f }

/-- An item with another thing for each block. -/
def Item.map {β γ : Type} (f : β → γ) : Item β → Item γ
  | struct name fields => .struct name fields
  | global name type => .global name type
  | function signature blocks => .function signature (blocks.map f)

@[simp] theorem Item.functionNames_map {β γ : Type} (f : β → γ) (item : Item β) :
    (item.map f).functionNames = item.functionNames := by
  cases item <;> rfl

@[simp] theorem Item.globalNames_map {β γ : Type} (f : β → γ) (item : Item β) :
    (item.map f).globalNames = item.globalNames := by
  cases item <;> rfl

section Signatures

variable (structs : List String) (place : Place)

theorem loadDeclarationClause_eq (read : Clauses (List Sexp)) (clause : Sexp) :
    loadDeclarationClause structs place (read.map blockForm) clause =
      (declarationClause structs place read clause).map (Clauses.map blockForm) := by
  unfold declarationClause
  split
  next types =>
    rw [← mapM_loadDeclaredParam]
    change (types.zipIdx.mapM (loadDeclaredParam structs place) >>= _) = _
    cases types.zipIdx.mapM (loadDeclaredParam structs place) <;> rfl
  next types =>
    rw [← loadReturns_eq]
    change (loadReturns structs place _ >>= _) = _
    cases loadReturns structs place (.list (.symbol "returns" :: types)) <;> rfl
  next params returns =>
    unfold loadDeclarationClause
    split
    next tagged => exact absurd tagged (Sexp.head?_ne params)
    next tagged => exact absurd tagged (Sexp.head?_ne returns)
    next => rfl

theorem loadFunctionClause_eq (read : Clauses (List Sexp)) (clause : Sexp) :
    loadFunctionClause structs place (read.map blockForm) clause =
      (functionClause structs place read clause).map (Clauses.map blockForm) := by
  unfold functionClause
  split
  next params =>
    rw [← funext (loadParam_eq structs place)]
    change (params.mapM (loadParam structs place) >>= _) = _
    cases params.mapM (loadParam structs place) <;> rfl
  next types =>
    rw [← loadReturns_eq]
    change (loadReturns structs place _ >>= _) = _
    cases loadReturns structs place (.list (.symbol "returns" :: types)) <;> rfl
  next parts =>
    cases parts with
    | nil => rfl
    | cons label ops =>
      change Except.ok _ = Except.ok _
      simp [Clauses.map, blockForm]
  next params returns block =>
    unfold loadFunctionClause
    split
    next tagged => exact absurd tagged (Sexp.head?_ne params)
    next tagged => exact absurd tagged (Sexp.head?_ne returns)
    next tagged => exact absurd tagged (Sexp.head?_ne block)
    next => rfl

/-- Reading clause by clause commutes with a view of what is read, if reading one clause does. -/
theorem foldlM_map {ε α β γ : Type} {f : β → α → Except ε β} {g : γ → α → Except ε γ} {view : β → γ}
    (step : ∀ b a, g (view b) a = (f b a).map view) (row : List α) (b : β) :
    row.foldlM g (view b) = (row.foldlM f b).map view := by
  induction row generalizing b with
  | nil => rfl
  | cons a row ih =>
    rw [List.foldlM_cons, List.foldlM_cons, step]
    cases f b a with
    | error => rfl
    | ok b => exact ih b

end Signatures

/-! ## Items -/

/-- A structure has at least a name. -/
def Counted (item : Sexp) : Prop :=
  ∀ parts, item = .list (.symbol "struct" :: parts) → parts ≠ []

section Items

variable (structs : List String) (file : Place)

theorem loadStructNames_eq (items : List Sexp) :
    loadStructNames file items = structNames file items := by
  fun_induction structNames file items with
  | case1 => rfl
  | case2 parts items ih =>
    cases parts with
    | nil => rfl
    | cons name parts =>
      rw [← ih]
      change (nameOf .nowhere name >>= _) = ((nameOf .nowhere name >>= _) >>= _)
      cases nameOf .nowhere name <;> rfl
  | case3 item items other ih =>
    rw [loadStructNames, if_neg (Sexp.head?_ne other), ih]

theorem counted_of_structNames {items : List Sexp} {names : List String}
    (h : structNames file items = .ok names) : ∀ item ∈ items, Counted item := by
  fun_induction structNames file items generalizing names with
  | case1 => exact fun _ mem => absurd mem List.not_mem_nil
  | case2 parts items ih =>
    obtain ⟨named, first, h⟩ := bind_eq_ok h
    obtain ⟨later, more, h⟩ := bind_eq_ok h
    refine List.forall_mem_cons.mpr ⟨?_, ih more⟩
    rintro _ same rfl
    cases same
    cases first
  | case3 item items other ih =>
    exact List.forall_mem_cons.mpr ⟨fun parts same => (other parts same).elim, ih h⟩

theorem loadStruct_eq (name : Sexp) (fields : List Sexp) (known : List String) :
    loadStruct structs (.list (.symbol "struct" :: name :: fields)) =
      (itemOf structs file known (.list (.symbol "struct" :: name :: fields))).map
        (Item.map blockForm) := by
  change (nameOf .nowhere name >>= _) = ((nameOf .nowhere name >>= _) >>= _).map _
  cases nameOf .nowhere name with
  | error => rfl
  | ok word =>
    change (fields.mapM (loadTypeOr (.int "?") structs (.struct word)) >>= _) =
      (fields.mapM (typeOr (.int "?") structs (.struct word)) >>= _).map _
    rw [funext (loadTypeOr_eq structs (.struct word) (.int "?"))]
    cases fields.mapM (typeOr (.int "?") structs (.struct word)) <;> rfl

theorem loadGlobal_eq (parts : List Sexp) (known : List String) :
    loadGlobal structs file (.list (.symbol "global" :: parts)) =
      (itemOf structs file known (.list (.symbol "global" :: parts))).map (Item.map blockForm) := by
  cases parts with
  | nil => rfl
  | cons name types =>
    change (nameOf .nowhere name >>= _) = ((nameOf .nowhere name >>= _) >>= _).map _
    cases nameOf .nowhere name with
    | error => rfl
    | ok word =>
      cases types with
      | nil => rfl
      | cons type types =>
        change (loadType structs (.global word) type >>= _) =
          (typeOf structs (.global word) type >>= _).map _
        rw [loadType_eq]
        cases typeOf structs (.global word) type <;> rfl

theorem loadDeclare_eq (parts : List Sexp) (known : List String) :
    loadDeclare structs file known (.list (.symbol "declare" :: parts)) =
      (itemOf structs file known (.list (.symbol "declare" :: parts))).map
        (Item.map blockForm) := by
  cases parts with
  | nil => rfl
  | cons name clauses =>
    change (nameOf .nowhere name >>= _) = ((nameOf .nowhere name >>= _) >>= _).map _
    cases nameOf .nowhere name with
    | error => rfl
    | ok word =>
      have clauseByClause :=
        foldlM_map (loadDeclarationClause_eq structs (.declaration word)) clauses {}
      change (if word ∈ known then _ else _) = Except.map _ (if word ∈ known then _ else _)
      by_cases twice : word ∈ known
      · rw [if_pos twice, if_pos twice]
        rfl
      · rw [if_neg twice, if_neg twice]
        change (clauses.foldlM (loadDeclarationClause structs (.declaration word)) {} >>= _) =
          (clauses.foldlM (declarationClause structs (.declaration word)) {} >>= _).map _
        rw [show ({} : Clauses Sexp) = Clauses.map blockForm {} from rfl, clauseByClause]
        cases clauses.foldlM (declarationClause structs (.declaration word)) {} <;> rfl

theorem loadFunction_eq (parts : List Sexp) (known : List String) :
    loadFunction structs file known (.list (.symbol "function" :: parts)) =
      (itemOf structs file known (.list (.symbol "function" :: parts))).map
        (Item.map blockForm) := by
  cases parts with
  | nil => rfl
  | cons name clauses =>
    change (nameOf .nowhere name >>= _) = ((nameOf .nowhere name >>= _) >>= _).map _
    cases nameOf .nowhere name with
    | error => rfl
    | ok word =>
      have clauseByClause := foldlM_map (loadFunctionClause_eq structs (.function word)) clauses {}
      change (if word ∈ known then _ else _) = Except.map _ (if word ∈ known then _ else _)
      by_cases twice : word ∈ known
      · rw [if_pos twice, if_pos twice]
        rfl
      · rw [if_neg twice, if_neg twice]
        change (clauses.foldlM (loadFunctionClause structs (.function word)) {} >>= _) =
          (clauses.foldlM (functionClause structs (.function word)) {} >>= _).map _
        rw [show ({} : Clauses Sexp) = Clauses.map blockForm {} from rfl, clauseByClause]
        cases clauses.foldlM (functionClause structs (.function word)) {} with
        | error => rfl
        | ok read =>
          obtain ⟨params, returns, blocks⟩ := read
          cases blocks <;> rfl

theorem itemOf_untagged {item : Sexp} (untagged : item.head? = none) (known : List String) :
    itemOf structs file known item = refuse file (.notItem item) := by
  unfold itemOf
  split
  next => cases untagged
  next => cases untagged
  next => cases untagged
  next => cases untagged
  next => cases untagged
  next => cases untagged
  next => rfl

theorem loadItem_eq (known : List String) {item : Sexp} (counted : Counted item) :
    loadItem structs file known item =
      (itemOf structs file known item).map (Item.map blockForm) := by
  unfold loadItem
  split
  next untagged =>
    rw [itemOf_untagged structs file untagged]
    rfl
  next tag tagged =>
    obtain ⟨parts, rfl⟩ := Sexp.eq_of_head? tagged
    fun_cases handler? structs file known tag with
    | case1 =>
      obtain ⟨name, fields, rfl⟩ := List.exists_cons_of_ne_nil (counted parts rfl)
      exact loadStruct_eq structs file name fields known
    | case2 => exact loadGlobal_eq structs file parts known
    | case3 => exact loadDeclare_eq structs file parts known
    | case4 => exact loadFunction_eq structs file parts known
    | case5 => rfl
    | case6 =>
      rw [itemOf]
      · rfl
      all_goals assumption

theorem loadItems_eq (known : List String) {items : List Sexp}
    (counted : ∀ item ∈ items, Counted item) :
    loadItems structs file known items =
      (itemsOf structs file known items).map (List.map (Item.map blockForm)) := by
  induction items generalizing known with
  | nil => rfl
  | cons form forms ih =>
    obtain ⟨first, others⟩ := List.forall_mem_cons.mp counted
    rw [loadItems, itemsOf, loadItem_eq structs file known first]
    cases itemOf structs file known form with
    | error => rfl
    | ok item =>
      change (loadItems structs file (known ++ (item.map blockForm).functionNames) forms >>= _) =
        (itemsOf structs file (known ++ item.functionNames) forms >>= _).map _
      rw [Item.functionNames_map, ih _ others]
      cases itemsOf structs file (known ++ item.functionNames) forms <;> rfl

end Items

/-! ## Bodies -/

section Operations

variable (structs : List String) (place : Place)

theorem loadLocation_eq (parts : List Sexp) :
    loadLocation place (.list (.symbol "at" :: parts)) = locationOf place parts := by
  cases parts with
  | nil => rfl
  | cons file parts =>
    cases parts with
    | nil => rfl
    | cons line parts => cases parts <;> rfl

theorem hasLocation_concat (tag : String) (before : List Sexp) (item : Sexp) :
    hasLocation (.list (.symbol tag :: before ++ [item])) =
      .ok (decide (item.head? = some "at")) := by
  have counted : 1 < (Sexp.symbol tag :: before ++ [item]).length := by
    rw [List.length_append, List.length_cons, List.length_singleton]
    omega
  rw [hasLocation, Sexp.last_concat]
  change (if 1 < (Sexp.symbol tag :: before ++ [item]).length then _ else _) = _
  rw [if_pos counted]
  rfl

/-- A location is looked for behind the tag: an operation without parts has none. -/
theorem detachLocation_eq (tag : String) (parts : List Sexp) :
    detachLocation place (.list (.symbol tag :: parts)) =
      (splitLocation place parts).map fun read => (.list (.symbol tag :: read.1), read.2) := by
  rcases List.eq_nil_or_concat parts with rfl | ⟨before, item, rfl⟩
  · rfl
  · rw [List.concat_eq_append, ← List.cons_append, detachLocation, hasLocation_concat,
      Sexp.last_concat]
    by_cases tagged : item.head? = some "at"
    · obtain ⟨location, rfl⟩ := Sexp.eq_of_head? tagged
      rw [splitLocation, List.getLast?_concat, List.dropLast_concat]
      change (loadLocation place (.list (.symbol "at" :: location)) >>= fun read => _) =
        ((locationOf place location >>= _).map _)
      rw [loadLocation_eq]
      cases locationOf place location with
      | error => rfl
      | ok read =>
        change Except.ok (Sexp.list (Sexp.symbol tag :: before ++ [_]).dropLast, some read) = _
        rw [List.dropLast_concat]
        rfl
    · have plain : splitLocation place (before ++ [item]) = .ok (before ++ [item], none) := by
        rw [splitLocation, List.getLast?_concat]
        split
        next location same =>
          cases same
          exact absurd rfl tagged
        next => rfl
      rw [plain, decide_eq_false tagged]
      rfl

theorem loadResult_eq (kind : OpKind) (tag : String) (parts : List Sexp) :
    (do
      let result ← loadResult structs place kind (.list (.symbol tag :: parts))
      let args ← (Sexp.list (.symbol tag :: parts)).partsFrom (if kind.hasResult then 3 else 1)
      return (result, args) : Except Error (Option (String × Ty) × List Sexp)) =
        resultOf structs place kind parts := by
  unfold loadResult resultOf
  cases kind.hasResult with
  | false => rfl
  | true =>
    cases parts with
    | nil => rfl
    | cons name parts =>
      cases parts with
      | nil => rfl
      | cons type args =>
        change ((symbolName place name >>= _) >>= _) = (symbolName place name >>= _)
        cases symbolName place name with
        | error => rfl
        | ok word =>
          change ((loadType structs place type >>= _) >>= _) = (typeOf structs place type >>= _)
          rw [loadType_eq]
          cases typeOf structs place type <;> rfl

theorem createOp_eq (form : Sexp) : createOp structs place form = draftOf structs place form := by
  unfold draftOf
  split
  next tag parts =>
    have headed : (Sexp.list (.symbol tag :: parts)).head? = some tag := rfl
    simp only [createOp, headed]
    cases OpKind.ofName? tag with
    | none => rfl
    | some kind =>
      change (detachLocation place (.list (.symbol tag :: parts)) >>= _) =
        (splitLocation place parts >>= _)
      rw [detachLocation_eq]
      cases splitLocation place parts with
      | error => rfl
      | ok read =>
        obtain ⟨body, location⟩ := read
        change _ = (resultOf structs place kind body >>= _)
        rw [← loadResult_eq structs place kind tag body]
        change (loadResult structs place kind (.list (.symbol tag :: body)) >>= _) =
          ((loadResult structs place kind (.list (.symbol tag :: body)) >>= _) >>= _)
        cases loadResult structs place kind (.list (.symbol tag :: body)) <;> rfl
  next other =>
    unfold createOp
    split
    next => rfl
    next tag tagged => exact absurd tagged (Sexp.head?_ne (other tag))

theorem createOps_eq (bound : List String) (forms : List Sexp) :
    createOps structs place bound forms = draftsOf structs place bound forms := by
  induction forms generalizing bound with
  | nil => rfl
  | cons form forms ih =>
    rw [createOps, draftsOf, createOp_eq]
    refine bind_congr fun draft => ?_
    have later (bound : List String) :
        (createOps structs place bound forms >>= fun answer => .ok (draft :: answer.1, answer.2)) =
          draftsOf structs place bound forms >>=
            fun answer => .ok (draft :: answer.1, answer.2) := by
      rw [ih]
    cases draft.result with
    | none => exact later bound
    | some named =>
      change (if named.1 ∈ bound then _ else _) = (if named.1 ∈ bound then _ else _)
      split
      next => rfl
      next => exact later (named.1 :: bound)

end Operations

theorem createBlocks_eq (structs : List String) (function : String) (labels bound : List String)
    {blocks : List (List Sexp)} (filled : ∀ parts ∈ blocks, parts ≠ []) :
    createBlocks structs function labels bound (blocks.map blockForm) =
      draftBlocksOf structs function labels bound blocks := by
  induction blocks generalizing labels bound with
  | nil => rfl
  | cons parts blocks ih =>
    obtain ⟨first, others⟩ := List.forall_mem_cons.mp filled
    obtain ⟨label, ops, rfl⟩ := List.exists_cons_of_ne_nil first
    change (symbolName (.function function) label >>= _) =
      (symbolName (.function function) label >>= _)
    cases symbolName (.function function) label with
    | error => rfl
    | ok word =>
      change (if word ∈ labels then _ else _) = if word ∈ labels then _ else _
      by_cases twice : word ∈ labels
      · rw [if_pos twice, if_pos twice]
        rfl
      · rw [if_neg twice, if_neg twice]
        change (createOps structs (.block function word) bound ops >>= _) =
          (draftsOf structs (.block function word) bound ops >>= _)
        rw [createOps_eq]
        cases draftsOf structs (.block function word) bound ops with
        | error => rfl
        | ok read =>
          obtain ⟨drafts, bound⟩ := read
          change
            (createBlocks structs function (word :: labels) bound (blocks.map blockForm) >>= _) =
              (draftBlocksOf structs function (word :: labels) bound blocks >>= _)
          rw [ih _ _ others]

section Wiring

variable (names : List String) {place : Place} {result : Option (String × Ty)}
    {location : Option Location}

theorem wireOp_invoke (args : List Sexp) :
    wireOp names ⟨place, .invoke, result, location, args⟩ =
      opOf names ⟨place, .invoke, result, location, args⟩ := by
  rcases args with _ | ⟨callee, _ | ⟨inner, _ | ⟨normal, _ | ⟨unwind, _ | ⟨extra, args⟩⟩⟩⟩⟩
  · rfl
  · rfl
  · cases inner <;> rfl
  · cases inner <;> rfl
  · cases inner with
    | list forms =>
      change (calleeOf names place callee >>= _) = (calleeOf names place callee >>= _)
      cases calleeOf names place callee with
      | error => rfl
      | ok callee =>
        change (forms.mapM (operandOf names place) >>= _) =
          (forms.mapM (operandOf names place) >>= _)
        cases forms.mapM (operandOf names place) with
        | error => rfl
        | ok operands =>
          change (symbolName place normal >>= _) = ((symbolName place normal >>= _) >>= _)
          cases symbolName place normal with
          | error => rfl
          | ok =>
            change (symbolName place unwind >>= _) = ((symbolName place unwind >>= _) >>= _)
            cases symbolName place unwind <;> rfl
    | _ => rfl
  · cases inner <;> rfl

theorem wireOp_condbr (args : List Sexp) :
    wireOp names ⟨place, .condbr, result, location, args⟩ =
      opOf names ⟨place, .condbr, result, location, args⟩ := by
  rcases args with _ | ⟨test, _ | ⟨yes, _ | ⟨no, args⟩⟩⟩
  · rfl
  · rfl
  · rfl
  · change ([test].mapM (operandOf names place) >>= _) = ([test].mapM (operandOf names place) >>= _)
    cases [test].mapM (operandOf names place) with
    | error => rfl
    | ok operands =>
      change (symbolName place yes >>= _) = ((symbolName place yes >>= _) >>= _)
      cases symbolName place yes with
      | error => rfl
      | ok =>
        change (symbolName place no >>= _) = ((symbolName place no >>= _) >>= _)
        cases symbolName place no <;> rfl

/-- The operands are counted before they are looked at, each kind by its own count. -/
theorem wireOp_eq (draft : Draft) : wireOp names draft = opOf names draft := by
  obtain ⟨place, kind, result, location, args⟩ := draft
  cases kind with
  | gep =>
    cases args with
    | nil => rfl
    | cons base args =>
      change (operandOf names place base >>= _) = ((operandOf names place base >>= _) >>= _)
      cases operandOf names place base <;> rfl
  | call => cases args <;> rfl
  | br =>
    cases args with
    | nil => rfl
    | cons target args =>
      change (symbolName place target >>= _) = ((symbolName place target >>= _) >>= _)
      cases symbolName place target <;> rfl
  | invoke => exact wireOp_invoke names args
  | condbr => exact wireOp_condbr names args
  | _ => rfl

end Wiring

section Bodies

variable (structs globals : List String)

theorem loadBody_eq (signature : Signature) {blocks : List (List Sexp)}
    (filled : ∀ parts ∈ blocks, parts ≠ []) :
    loadBody structs globals signature (blocks.map blockForm) =
      bodyOf structs globals signature blocks := by
  have wired (names : List String) : wireBlock names = blockOf names := by
    funext draft
    rw [wireBlock, blockOf, funext (wireOp_eq names)]
  simp only [loadBody, bodyOf, createBlocks_eq structs signature.name _ _ filled, wired]

/-- The blocks of a function have at least a label. -/
def Item.Filled : Item (List Sexp) → Prop
  | function _ blocks => ∀ parts ∈ blocks, parts ≠ []
  | _ => True

theorem loaded_eq {item : Item (List Sexp)} (filled : item.Filled) :
    (item.map blockForm).loaded structs globals = item.withBody structs globals := by
  cases item with
  | struct name fields => rfl
  | global name type => rfl
  | function signature blocks =>
    change (loadBody structs globals signature (blocks.map blockForm) >>= _) = _
    rw [loadBody_eq structs globals signature filled]
    rfl

end Bodies

/-! ## Modules -/

theorem filled_of_functionClause
    {structs : List String} {place : Place} {read read' : Clauses (List Sexp)} {clause : Sexp}
    (filled : ∀ parts ∈ read.blocks, parts ≠ [])
    (h : functionClause structs place read clause = .ok read') :
    ∀ parts ∈ read'.blocks, parts ≠ [] := by
  unfold functionClause at h
  split at h
  next =>
    obtain ⟨_, _, h⟩ := bind_eq_ok h
    cases h
    exact filled
  next =>
    obtain ⟨_, _, h⟩ := bind_eq_ok h
    cases h
    exact filled
  next parts =>
    split at h
    next => cases h
    next some =>
      cases h
      intro found mem
      rcases List.mem_append.mp mem with before | here
      · exact filled found before
      · cases List.mem_singleton.mp here
        exact fun none => some (by rw [none]; rfl)
  next => cases h

theorem filled_of_itemOf {structs known : List String} {file : Place} {form : Sexp}
    {item : Item (List Sexp)} (h : itemOf structs file known form = .ok item) : item.Filled := by
  unfold itemOf at h
  split at h
  next =>
    obtain ⟨_, _, h⟩ := bind_eq_ok h
    obtain ⟨_, _, h⟩ := bind_eq_ok h
    cases h
    trivial
  next =>
    obtain ⟨⟨name, rest⟩, _, h⟩ := bind_eq_ok h
    cases rest with
    | nil =>
      cases h
      trivial
    | cons type rest =>
      obtain ⟨_, _, h⟩ := bind_eq_ok h
      cases h
      trivial
  next =>
    obtain ⟨_, _, h⟩ := bind_eq_ok h
    obtain ⟨_, h⟩ := guard_eq_ok h
    obtain ⟨_, _, h⟩ := bind_eq_ok h
    cases h
    exact List.forall_mem_nil _
  next =>
    obtain ⟨_, _, h⟩ := bind_eq_ok h
    obtain ⟨_, h⟩ := guard_eq_ok h
    obtain ⟨read, folded, h⟩ := bind_eq_ok h
    obtain ⟨_, h⟩ := guard_eq_ok h
    cases h
    exact keeps_of_foldlM (P := fun read => ∀ parts ∈ read.blocks, parts ≠ [])
      filled_of_functionClause (List.forall_mem_nil _) folded
  next => cases h
  next => cases h
  next => cases h

theorem filled_of_itemsOf {structs known : List String} {file : Place} {forms : List Sexp}
    {items : List (Item (List Sexp))} (h : itemsOf structs file known forms = .ok items) :
    ∀ item ∈ items, item.Filled := by
  induction forms generalizing known items with
  | nil =>
    cases h
    exact List.forall_mem_nil _
  | cons form forms ih =>
    obtain ⟨item, first, h⟩ := bind_eq_ok h
    obtain ⟨later, others, h⟩ := bind_eq_ok h
    cases h
    exact List.forall_mem_cons.mpr ⟨filled_of_itemOf first, ih others⟩

theorem loadName_eq (file : Place) (parts : List Sexp) :
    loadName file parts = splitName file parts := by
  cases parts with
  | nil => rfl
  | cons title items => cases title <;> rfl

/-- An outline with another thing for each block. -/
def Outline.map {β γ : Type} (f : β → γ) (outline : Outline β) : Outline γ :=
  { name := outline.name, structs := outline.structs, items := outline.items.map (Item.map f) }

theorem globals_map {β γ : Type} (f : β → γ) (outline : Outline β) :
    (outline.map f).globals = outline.globals := by
  rw [Outline.globals, Outline.globals, Outline.map, List.flatMap_map]
  exact congrArg (outline.items.flatMap ·) (funext (Item.globalNames_map f))

theorem outline_eq (file : String) (form : Sexp) :
    Outline.ofSexp file form = (Outline.decode file form).map (Outline.map blockForm) := by
  unfold Outline.decode
  split
  next parts =>
    change (loadName (.file file) parts >>= _) = (splitName (.file file) parts >>= _).map _
    rw [loadName_eq]
    cases splitName (.file file) parts with
    | error => rfl
    | ok read =>
      obtain ⟨name, forms⟩ := read
      change (loadStructNames (.file file) forms >>= _) =
        (structNames (.file file) forms >>= _).map _
      rw [loadStructNames_eq]
      cases named : structNames (.file file) forms with
      | error => rfl
      | ok structs =>
        change (loadItems structs (.file file) [] forms >>= _) =
          (itemsOf structs (.file file) [] forms >>= _).map _
        rw [loadItems_eq structs _ _ (counted_of_structNames _ named)]
        cases itemsOf structs (.file file) [] forms <;> rfl
  next other =>
    rw [Outline.ofSexp, expectTagged, if_pos (Sexp.head?_ne other)]
    rfl

theorem filled_of_decode {file : String} {form : Sexp} {outline : Outline (List Sexp)}
    (h : Outline.decode file form = .ok outline) : ∀ item ∈ outline.items, item.Filled := by
  unfold Outline.decode at h
  split at h
  next =>
    obtain ⟨_, _, h⟩ := bind_eq_ok h
    obtain ⟨_, _, h⟩ := bind_eq_ok h
    obtain ⟨_, read, h⟩ := bind_eq_ok h
    cases h
    exact filled_of_itemsOf read
  next => cases h

theorem source_eq {outline : Outline (List Sexp)} (filled : ∀ item ∈ outline.items, item.Filled) :
    (outline.map blockForm).source = outline.decodeBodies := by
  have each :
      (outline.items.map (Item.map blockForm)).mapM (Item.loaded outline.structs outline.globals) =
        outline.items.mapM (Item.withBody outline.structs outline.globals) := by
    rw [List.mapM_map]
    exact mapM_congr fun item mem => loaded_eq _ _ (filled item mem)
  rw [Outline.source, globals_map]
  change ((outline.items.map (Item.map blockForm)).mapM
    (Item.loaded outline.structs outline.globals) >>= _) = _
  rw [each]
  rfl

/-- No access of the loader goes wrong: it reads what the grammar gives, and refuses what it
refuses. -/
theorem ofSexp_eq (file : String) (form : Sexp) : ofSexp file form = decode file form := by
  rw [ofSexp, outline_eq]
  cases read : Outline.decode file form with
  | error e =>
    rw [decode, read]
    rfl
  | ok outline =>
    rw [decode, read]
    exact source_eq (filled_of_decode read)

theorem decode_of_parse {read : Sexp.Reader} {file text : String} {source : Source}
    (h : parseWith read file text = .ok source) :
    ∃ form, read text = .ok form ∧ decode file form = .ok source := by
  unfold parseWith at h
  split at h
  next => cases h
  next form given => exact ⟨form, given, ofSexp_eq file form ▸ h⟩

end Source
end Relock
