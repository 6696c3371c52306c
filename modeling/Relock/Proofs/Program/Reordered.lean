import Relock.Proofs.Program.Presents
import Relock.Proofs.Source.Reorder

/-!
# Programs from reordered texts

The order in which a module lists its items decides the numbers of the nodes and the order of the
tables, and nothing else. What a program says apart from these is its view: names, types and kinds
in the place of numbers. A function's view is read off its item alone, or off its name if there is
no item, and programs whose views are the same up to the order of the tables agree.
-/

namespace Relock

/-- What a program says of an operation, without numbers. An operand is given by its kind and as it
is written. -/
structure OpView where
  kind : OpKind
  result : Option (String × Ty)
  location : Option Location
  callee : String
  operands : List (String × Source.Operand)
  indices : List (Option Int)
  targets : List String
  deriving DecidableEq

/-- What a program says of a function, without numbers. Blocks are given by their labels, in
order. -/
structure FunctionView where
  signature : Source.Signature
  blocks : List (String × List OpView)
  deriving DecidableEq

namespace Program

def opView (p : Program) (o : OpId) : OpView where
  kind := (p.op o).kind
  result := (p.op o).result.map p.typedName
  location := (p.op o).location
  callee := (p.op o).callee.name
  operands := (p.op o).operands.map fun v => ((p.value v).origin.kind, p.operandSource v)
  indices := (p.op o).indices
  targets := (p.op o).targets

def functionView (p : Program) (f : FunctionId) : FunctionView where
  signature := p.signatureSource f
  blocks := (p.function f).blocks.map fun b => ((p.block b).name, (p.block b).ops.map p.opView)

/-- The functions with what the program says of them. -/
def functionViews (p : Program) : List (String × FunctionView) :=
  p.functions.map fun e => (e.1, p.functionView e.2)

/-- The same up to numbers and the order of the tables. -/
structure Agrees (p q : Program) : Prop where
  name : p.name = q.name
  structs : p.structs.Perm q.structs
  globals : p.globalTypes.Perm q.globalTypes
  functions : p.functionViews.Perm q.functionViews

end Program

/-! ## Views of texts -/

namespace Source

/-- The kind of value that an operand is in a function with some parameters and results. -/
def Operand.kindIn (params results : List String) : Operand → String
  | .constant _ => "constant"
  | .function _ => "function-ref"
  | .value name =>
    if name ∈ params then "argument" else if name ∈ results then "result" else "global"

def calleeText : Option Callee → String
  | none => ""
  | some (.function name) => name
  | some (.value name) => "%" ++ name

def Op.view (params results : List String) (op : Op) : OpView where
  kind := op.kind
  result := op.result
  location := op.location
  callee := calleeText op.callee
  operands := op.operands.map fun operand => (operand.kindIn params results, operand)
  indices := op.indices
  targets := op.targets

/-- What a text says of a function. -/
def functionView (signature : Signature) (blocks : List Block) : FunctionView where
  signature := signature
  blocks := blocks.map fun block =>
    (block.label, block.ops.map (Op.view (signature.params.map (·.1)) (resultNames blocks)))

end Source

namespace Program

variable {p q : Program} {f : FunctionId}

/-- A value that a name resolves to has the kind that the text gives the name. -/
theorem kind_of_resolved {params results : List String} (fresh : ∀ name ∈ results, name ∉ params)
    {v : ValueId} (resolved : (p.value v).Resolved params results) :
    (p.value v).origin.kind = (p.operandSource v).kindIn params results := by
  unfold Value.Resolved Value.OwnName at resolved
  unfold operandSource
  cases origin : (p.value v).origin with
  | constant n => rfl
  | functionRef => rfl
  | argument owner =>
    simp only [origin, Origin.isLiteral, Bool.false_eq_true, false_or, reduceCtorEq, false_and,
      or_false] at resolved
    exact (if_pos resolved).symm
  | result o owner =>
    simp only [origin, Origin.isLiteral, Bool.false_eq_true, false_or, reduceCtorEq, false_and,
      or_false] at resolved
    exact ((if_neg (fresh _ resolved)).trans (if_pos resolved)).symm
  | global =>
    simp only [origin, Origin.isLiteral, Bool.false_eq_true, false_or, true_and] at resolved
    exact ((if_neg resolved.1).trans (if_neg resolved.2)).symm

theorem calleeText_of_callable {callee : Callee} (callable : p.Callable f callee) :
    callee.name = Source.calleeText (p.calleeSource callee) := by
  cases callee with
  | absent => rfl
  | direct g name => rfl
  | indirect v name => exact callable.2

/-- What a program says of an operation is what it reads back as, under the names of the
function. -/
theorem opView_eq {params results : List String} (fitted : p.Fitted) {o : OpId} {op : Operation}
    (known : p.op? o = some op) (fresh : ∀ name ∈ results, name ∉ params)
    (resolved : ∀ v ∈ (p.op o).operands, (p.value v).Resolved params results) :
    p.opView o = (p.opSource o).view params results := by
  obtain ⟨_, _, _, _, fits⟩ := fitted.op known
  have operands : (p.op o).operands.map (fun v => ((p.value v).origin.kind, p.operandSource v)) =
      ((p.op o).operands.map p.operandSource).map fun operand => (operand.kindIn params results,
        operand) := by
    rw [List.map_map]
    exact List.map_congr_left fun v hv => by rw [kind_of_resolved fresh (resolved v hv)]; rfl
  have callee : (p.op o).callee.name = Source.calleeText (p.calleeSource (p.op o).callee) := by
    rw [op_eq known]
    exact calleeText_of_callable fits.callee
  simp only [opView, Source.Op.view, opSource, readOp, operands, callee]

theorem functionView_of_body
    (sane : p.Sane) (shape : p.Shape) {signature : Source.Signature} {blocks : List Source.Block}
    {globals : List String} (declares : p.Declares signature f) (body : p.HasBody f blocks)
    (checked : Source.BodyChecked (signature.params.map (·.1)) globals blocks) :
    p.functionView f = Source.functionView signature blocks := by
  obtain ⟨text, _, resolved⟩ := body
  rw [declares.text] at resolved
  have views : (p.function f).blocks.map (fun b =>
      ((p.block b).name, (p.block b).ops.map p.opView)) =
        (p.bodySource f).map fun block =>
          (block.label, block.ops.map
            (Source.Op.view (signature.params.map (·.1)) (Source.resultNames blocks))) := by
    rw [bodySource, List.map_map]
    refine List.map_congr_left fun b hb => Prod.ext rfl ?_
    have ops : (p.block b).ops.map p.opView = ((p.block b).ops.map p.opSource).map
        (Source.Op.view (signature.params.map (·.1)) (Source.resultNames blocks)) := by
      rw [List.map_map]
      refine List.map_congr_left fun o ho => ?_
      obtain ⟨op, known⟩ := shape.op?_of_mem ho
      exact opView_eq sane.fitted known checked.fresh (resolved b hb o ho)
    exact ops
  rw [functionView, views, text, declares.text, Source.functionView]

/-- What is said of a function that is only mentioned. -/
def bareView (name : String) : FunctionView := ⟨⟨name, [], .void⟩, []⟩

theorem functionView_of_bare {name : String} (bare : p.function? f = some (.bare name)) :
    p.functionView f = bareView name := by
  simp only [functionView, signatureSource, function_eq bare, Function.bare, List.map_nil, bareView]

/-! ## Agreement -/

section Agreement

variable {source source' : Source}

/-- The functions of a program and what it says of them, by the items of the text. -/
theorem mem_functionViews_iff (checked : source.Checked) (building : p.Building source.items [])
    (presents : p.Presents source.items source.items) {name : String} {view : FunctionView} :
    (name, view) ∈ p.functionViews ↔
      (∃ signature blocks, .function signature blocks ∈ source.items ∧ signature.name = name ∧
        Source.functionView signature blocks = view) ∨
      name ∉ source.items.flatMap Source.Item.functionNames ∧
        name ∈ source.items.flatMap Source.Item.mentions ∧ bareView name = view := by
  have named := building.sane.named
  -- the function of an item, whatever number it has
  have item {signature : Source.Signature} {blocks : List Source.Block}
      (mem : .function signature blocks ∈ source.items) :
        ∃ f, p.functions.get? signature.name = some f ∧
        p.functionView f = Source.functionView signature blocks := by
    obtain ⟨f, declares, body⟩ := building.made mem
    exact ⟨f, declares.named,
      functionView_of_body building.sane building.finished.shape declares body
        (checked.items _ mem)⟩
  have entry {f : FunctionId} (given : p.functions.get? name = some f)
      (same : p.functionView f = view) :
      (name, view) ∈ p.functionViews :=
    List.mem_map.mpr ⟨(name, f), Keyed.mem_of_get? given, by rw [← same]⟩
  constructor
  · intro mem
    obtain ⟨⟨other, f⟩, registered, same⟩ := List.mem_map.mp mem
    cases same
    have given := Keyed.get?_of_mem named.keys registered
    by_cases inside : other ∈ source.items.flatMap Source.Item.functionNames
    · obtain ⟨own, written, gives⟩ := List.mem_flatMap.mp inside
      cases own with
      | struct _ _ => cases gives
      | global _ _ => cases gives
      | function signature blocks =>
        obtain rfl := List.mem_singleton.mp gives
        obtain ⟨g, given', view⟩ := item written
        obtain rfl := Option.some.inj (given.symm.trans given')
        exact .inl ⟨signature, blocks, written, rfl, view.symm⟩
    · have mentioned := (presents.functions.mp (Option.isSome_of_eq_some given)).resolve_left inside
      have bare := (presents.bare given).resolve_left inside
      exact .inr ⟨inside, mentioned, (functionView_of_bare bare).symm⟩
  · rintro (⟨signature, blocks, mem, rfl, rfl⟩ | ⟨outside, mentioned, rfl⟩)
    · obtain ⟨f, given, view⟩ := item mem
      exact entry given view
    · obtain ⟨f, given⟩ := Option.isSome_iff_exists.mp (presents.functions.mpr (.inr mentioned))
      exact entry given (functionView_of_bare ((presents.bare given).resolve_left outside))

theorem functionViews_nodup (named : p.Named) : p.functionViews.Nodup := by
  refine List.Pairwise.of_map (S := (· ≠ ·)) (·.1) (fun _ _ differ same =>
    differ (congrArg _ same)) ?_
  rw [functionViews, List.map_map]
  exact named.keys

/-- Texts with the same items make programs that agree. -/
theorem agrees_of_perm (checked : source.Checked) (complete : ∀ item ∈ source.items, item.Complete)
    (structs : ((source.items.flatMap Source.Item.structs).map (·.1)).Nodup)
    (globals : ((source.items.flatMap Source.Item.globals).map (·.1)).Nodup)
    (checked' : source'.Checked) (name : source'.name = source.name)
    (perm : source.items.Perm source'.items) :
    (ofSource source).Agrees (ofSource source') := by
  have complete' : ∀ item ∈ source'.items, item.Complete :=
    fun item mem => complete item (perm.mem_iff.mpr mem)
  have sameStructs := perm.flatMap_right Source.Item.structs
  have sameGlobals := perm.flatMap_right Source.Item.globals
  have sameNames := perm.flatMap_right Source.Item.functionNames
  have sameMentions := perm.flatMap_right Source.Item.mentions
  have presents := presents_ofSource checked complete structs globals
  have presents' := presents_ofSource checked' complete'
    ((sameStructs.map (·.1)).nodup_iff.mp structs)
    ((sameGlobals.map (·.1)).nodup_iff.mp globals)
  have building := building_ofSource checked complete
  have building' := building_ofSource checked' complete'
  refine ⟨?_, ?_, ?_, ?_⟩
  · rw [name_ofSource, name_ofSource, name]
  · rw [presents.structs, presents'.structs]
    exact sameStructs
  · rw [presents.globals, presents'.globals]
    exact sameGlobals
  · refine (List.perm_ext_iff_of_nodup (functionViews_nodup building.sane.named)
      (functionViews_nodup building'.sane.named)).mpr fun ⟨name, view⟩ => ?_
    rw [mem_functionViews_iff checked building presents,
      mem_functionViews_iff checked' building' presents']
    simp only [perm.mem_iff, sameNames.mem_iff, sameMentions.mem_iff]

end Agreement

end Program

/-- The order of the items of a module does not matter. If no two structures and no two globals
share a name, a module and its reordering are both read or both refused, and programs made from them
agree. -/
theorem ofSexp_reordered (file : String) {title : Sexp} (word : ∀ parts, title ≠ .list parts)
    {items others : List Sexp} (perm : items.Perm others)
    (structs : (items.filterMap (Sexp.given? "struct")).Nodup)
    (globals : (items.filterMap (Sexp.given? "global")).Nodup) :
    let form (items : List Sexp) := Sexp.list (.symbol "module" :: title :: items)
    let made (items : List Sexp) := (Source.ofSexp file (form items)).map Program.ofSource
    ((∃ p, made items = .ok p) ↔ ∃ q, made others = .ok q) ∧
    (∀ p q, made items = .ok p → made others = .ok q → p.Agrees q) ∧
    ∀ (read : Sexp.Reader) text items, read text = .ok (form items) →
    Program.loadWith read file text = made items := by
  intro form made
  have decoded (items : List Sexp) :
      made items = (Source.decode file (form items)).map Program.ofSource :=
    congrArg (Except.map Program.ofSource) (Source.ofSexp_eq file (form items))
  have other {items others : List Sexp} (perm : items.Perm others) {p : Program}
      (h : made items = .ok p) :
      ∃ q, made others = .ok q := by
    rw [decoded] at h ⊢
    obtain ⟨source, read, rfl⟩ := map_eq_ok h
    obtain ⟨source', read', _⟩ := Source.decode_perm word perm read
    exact ⟨Program.ofSource source', congrArg (Except.map Program.ofSource) read'⟩
  refine ⟨⟨fun ⟨p, h⟩ => other perm h, fun ⟨q, h⟩ => other perm.symm h⟩, fun p q h h' => ?_,
    fun read text items given => ?_⟩
  · rw [decoded] at h h'
    obtain ⟨source, read, rfl⟩ := map_eq_ok h
    obtain ⟨source', read', rfl⟩ := map_eq_ok h'
    obtain ⟨reordered, again, name, same⟩ := Source.decode_perm word perm read
    obtain rfl := Except.ok.inj (read'.symm.trans again)
    obtain ⟨structNames, globalNames⟩ := Source.given_of_decode word read
    exact Program.agrees_of_perm (Source.checked_of_decode read).1 (Source.complete_of_decode read)
      (structNames ▸ structs) (globalNames ▸ globals) (Source.checked_of_decode read').1 name same
  · rw [Program.loadWith, Source.parseWith, given]

/-- Items of which each uses others: structures and globals of both, a function that calls one that
is written after it, and functions that have no item. -/
def scatteredItems : List Sexp :=
  let word := Sexp.symbol
  let pair := Sexp.list [word "ptr", word "Pair"]
  [.list [word "struct", word "Pair", word "i64", pair],
    .list [word "struct", word "Row", .list [word "array", .int 4, word "Pair"]],
    .list [word "global", word "home", pair],
    .list [word "global", word "rows", word "Row"],
    .list [word "function", .string "main", .list [word "params", .list [word "x", word "i64"]],
      .list [word "block", word "a",
        .list [word "call", word "r", word "i64", .string "late", word "x", word "home", .int 3],
        .list [word "call", word "_", word "void", .string "far", .string "other"],
        .list [word "ret", word "r"]]],
    .list [word "function", .string "late", .list [word "params", .list [word "home", word "i64"]],
      .list [word "block", word "a", .list [word "ret", word "home"]]]]

set_option maxRecDepth 4000 in
theorem ofSexp_reordered_scattered :
    let made (items : List Sexp) :=
      (Source.ofSexp "scattered" (.list (.symbol "module" :: .symbol "m" :: items))).map
        Program.ofSource
    let pair := ("Pair", [Ty.int "i64", .ptr (.struct "Pair")])
    let row := ("Row", [Ty.array 4 (.struct "Pair")])
    let home := ("home", Ty.ptr (.struct "Pair"))
    let rows := ("rows", Ty.struct "Row")
    ∃ p q, made scatteredItems = .ok p ∧ made scatteredItems.reverse = .ok q ∧
      p.structs = [pair, row] ∧ q.structs = [row, pair] ∧
      p.globalTypes = [home, rows] ∧ q.globalTypes = [rows, home] ∧
      p.functions.keys = ["main", "late", "far", "other"] ∧
      q.functions.keys = ["late", "main", "far", "other"] ∧
      p.Agrees q := by
  intro made pair row home rows
  have word (parts : List Sexp) : Sexp.symbol "m" ≠ .list parts := Sexp.noConfusion
  have decoded (items : List Sexp) : made items =
      (Source.decode "scattered" (.list (.symbol "module" :: .symbol "m" :: items))).map
        Program.ofSource :=
    congrArg (Except.map Program.ofSource) (Source.ofSexp_eq _ _)
  obtain ⟨_, agree, _⟩ :=
    ofSexp_reordered "scattered" word (List.reverse_perm scatteredItems).symm (by decide)
      (by decide)
  obtain ⟨p, first, before⟩ : ∃ p, made scatteredItems = .ok p ∧ decide (p.structs = [pair, row] ∧
      p.globalTypes = [home, rows] ∧
      p.functions.keys = ["main", "late", "far", "other"]) = true := by
    rw [decoded]
    exact exists_of_any (by decide +kernel)
  obtain ⟨q, second, after⟩ : ∃ q, made scatteredItems.reverse = .ok q ∧
      decide (q.structs = [row, pair] ∧
      q.globalTypes = [rows, home] ∧
      q.functions.keys = ["late", "main", "far", "other"]) = true := by
    rw [decoded]
    exact exists_of_any (by decide +kernel)
  obtain ⟨structs, globals, functions⟩ := of_decide_eq_true before
  obtain ⟨structs', globals', functions'⟩ := of_decide_eq_true after
  exact ⟨p, q, first, second, structs, structs', globals, globals', functions, functions',
    agree p q first second⟩

end Relock
