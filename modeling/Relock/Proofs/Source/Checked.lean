import Relock.Proofs.Program.Body
import Relock.Proofs.Source.Decoder

/-!
# What a text binds

A text that is read gives every function one item, every block of a body a label of its own and
every result a name that nothing else in the function has. Names are used where they are bound, and
a body's blocks end in terminators that go to blocks of the body. `Source.Checked` collects this;
the operations that do not end a block are not looked at, so what it says of labels it says of the
last operation of each block.

Of the functions of a text those have blocks to which it gives them in a `function` form.
-/

namespace Relock

/-- The name of the function that a form gives a body to. -/
def Sexp.definedName? : Sexp → Option String
  | .list (.symbol "function" :: name :: _) => name.name?
  | _ => none

namespace Source

/-- The names of the functions that the form of a text gives a body to, in order. -/
def definedNames (form : Except String Sexp) : List String :=
  match form with
  | .ok (.list (.symbol "module" :: parts)) => parts.filterMap Sexp.definedName?
  | _ => []

/-- A body in which names and labels are used where they are given. -/
structure BodyChecked (params globals : List String) (blocks : List Block) : Prop where
  labels : (blocks.map (·.label)).Nodup
  results : (resultNames blocks).Nodup
  fresh : ∀ name ∈ resultNames blocks, name ∉ params
  bound : ∀ block ∈ blocks, ∀ op ∈ block.ops, ∀ name ∈ op.names,
    name ∈ params ∨ name ∈ resultNames blocks ∨ name ∈ globals
  ends : ∀ block ∈ blocks, ∃ op, block.ops.getLast? = some op ∧ op.kind.isTerminator = true ∧
    ∀ label ∈ op.targets, label ∈ blocks.map (·.label)
  targets : ∀ block ∈ blocks, ∀ op ∈ block.ops, op.kind.isTerminator = false → op.targets = []

/-- What is checked of an item, in a module with some globals. -/
def Item.Checked (globals : List String) : Item Block → Prop
  | .function signature blocks => BodyChecked (signature.params.map (·.1)) globals blocks
  | _ => True

/-- The structure of an item, with its fields. -/
def Item.structs {β : Type} : Item β → List (String × List Ty)
  | .struct name fields => [(name, fields)]
  | _ => []

/-- The global of an item, with its type. -/
def Item.globals {β : Type} : Item β → List (String × Ty)
  | .global name type => [(name, type)]
  | _ => []

/-- The function that an item gives a body to. -/
def Item.definedName? {β : Type} : Item β → Option String
  | .function signature (_ :: _) => some signature.name
  | _ => none

end Source

/-- What is checked of a text. -/
structure Source.Checked (source : Source) : Prop where
  functions : (source.items.flatMap Source.Item.functionNames).Nodup
  items : ∀ item ∈ source.items, item.Checked (source.items.flatMap Source.Item.globalNames)

namespace Source

/-! ## Operations -/

theorem mem_names {op : Op} {name : String} :
    name ∈ op.names ↔ .value name ∈ op.operands ∨ op.callee = some (.value name) := by
  unfold Op.names
  rw [List.mem_append]
  refine or_congr ⟨fun h => ?_, fun h => List.mem_filterMap.mpr ⟨_, h, rfl⟩⟩ ⟨fun h => ?_,
    fun h => ?_⟩
  · obtain ⟨operand, mem, is⟩ := List.mem_filterMap.mp h
    cases operand with
    | value other => exact Option.some.inj is ▸ mem
    | _ => cases is
  · split at h
    next found => rw [found, List.mem_singleton.mp h]
    next => cases h
  · rw [h]
    exact List.mem_singleton_self name

/-- An operand that is a name is one of some names. -/
def Operand.Within (names : List String) (operand : Operand) : Prop :=
  ∀ name, operand = .value name → name ∈ names

theorem within_operandOf {names : List String} {place : Place} {form : Sexp} {operand : Operand}
    (h : operandOf names place form = .ok operand) : operand.Within names := by
  rintro name rfl
  unfold operandOf at h
  split at h
  next => cases h
  next =>
    split at h
    next mem =>
      cases h
      exact mem
    next => cases h
  next => cases h
  next => cases h

theorem within_values {names : List String} {place : Place} {forms : List Sexp}
    {operands : List Operand} (h : forms.mapM (operandOf names place) = .ok operands) :
    ∀ operand ∈ operands, operand.Within names :=
  forall_of_mapM (fun _ _ _ => within_operandOf) h

theorem within_indicesOf {names : List String} {place : Place} {forms : List Sexp}
    {indices : List (Option Int)} {operands : List Operand}
    (h : indicesOf names place forms = .ok (indices, operands)) :
    ∀ operand ∈ operands, operand.Within names := by
  induction forms generalizing indices operands with
  | nil =>
    cases h
    nofun
  | cons form forms ih =>
    unfold indicesOf at h
    split at h
    next empty => cases empty
    next same =>
      cases same
      obtain ⟨⟨_, _⟩, rest, h⟩ := bind_eq_ok h
      cases h
      exact ih rest
    next same =>
      cases same
      obtain ⟨operand, first, h⟩ := bind_eq_ok h
      obtain ⟨⟨_, _⟩, rest, h⟩ := bind_eq_ok h
      cases h
      exact List.forall_mem_cons.mpr ⟨within_operandOf first, ih rest⟩

theorem within_calleeOf {names : List String} {place : Place} {form : Sexp} {callee : Callee}
    (h : calleeOf names place form = .ok callee) : ∀ name, some callee = some (.value name) →
    name ∈ names := by
  rintro name ⟨⟩
  unfold calleeOf at h
  split at h
  next => cases h
  next =>
    split at h
    next mem =>
      cases h
      exact mem
    next => cases h
  next => cases h

/-- An operation that keeps what its draft says, uses given names and goes to labels only if it may
end a block. -/
structure Op.From (names : List String) (draft : Draft) (op : Op) : Prop where
  result : op.result = draft.result
  names : ∀ name ∈ op.names, name ∈ names
  targets : op.kind.isTerminator = false → op.targets = []

theorem from_parts {names : List String} {draft : Draft} {kind : OpKind}
    {location : Option Location} {callee : Option Callee} {operands : List Operand}
    {indices : List (Option Int)} {targets : List String}
    (values : ∀ operand ∈ operands, operand.Within names)
    (called : ∀ name, callee = some (.value name) → name ∈ names)
    (labels : kind.isTerminator = false → targets = []) :
    Op.From names draft ⟨kind, draft.result, location, callee, operands, indices, targets⟩ := by
  refine ⟨rfl, fun name h => ?_, labels⟩
  rcases mem_names.mp h with operand | callee
  · exact values _ operand name rfl
  · exact called name callee

theorem from_opOf {names : List String} {draft : Draft} {op : Op} (h : opOf names draft = .ok op) :
    op.From names draft := by
  unfold opOf at h
  -- one case for each way in which the operands and labels of a kind are written
  cases kind : draft.kind <;> simp only [kind] at h
  case alloca | unreachable =>
    cases h
    exact from_parts nofun nofun fun _ => rfl
  case load | cast | store | memcpy | memset | cmp | binop | phi =>
    obtain ⟨_, _, h⟩ := bind_eq_ok h
    obtain ⟨values, read, h⟩ := bind_eq_ok h
    cases h
    exact from_parts (within_values read) nofun fun _ => rfl
  case gep =>
    obtain ⟨_, _, h⟩ := bind_eq_ok h
    obtain ⟨base, read, h⟩ := bind_eq_ok h
    obtain ⟨⟨_, _⟩, rest, h⟩ := bind_eq_ok h
    cases h
    exact from_parts (List.forall_mem_append.mpr ⟨within_values read, within_indicesOf rest⟩) nofun
      fun _ => rfl
  case extract | insert =>
    obtain ⟨_, _, h⟩ := bind_eq_ok h
    obtain ⟨indices, _, h⟩ := bind_eq_ok h
    obtain ⟨values, read, h⟩ := bind_eq_ok h
    cases h
    exact from_parts (within_values read) nofun fun _ => rfl
  case call =>
    split at h
    next => cases h
    next =>
      obtain ⟨callee, called, h⟩ := bind_eq_ok h
      obtain ⟨values, read, h⟩ := bind_eq_ok h
      cases h
      exact from_parts (within_values read) (within_calleeOf called) fun _ => rfl
  case invoke =>
    split at h
    next =>
      obtain ⟨callee, called, h⟩ := bind_eq_ok h
      obtain ⟨values, read, h⟩ := bind_eq_ok h
      obtain ⟨targets, _, h⟩ := bind_eq_ok h
      cases h
      exact from_parts (within_values read) (within_calleeOf called) nofun
    next => cases h
  case br =>
    obtain ⟨_, _, h⟩ := bind_eq_ok h
    obtain ⟨targets, _, h⟩ := bind_eq_ok h
    cases h
    exact from_parts nofun nofun nofun
  case condbr | switch =>
    obtain ⟨_, _, h⟩ := bind_eq_ok h
    obtain ⟨values, read, h⟩ := bind_eq_ok h
    obtain ⟨targets, _, h⟩ := bind_eq_ok h
    cases h
    exact from_parts (within_values read) nofun nofun
  case ret | resume =>
    obtain ⟨values, read, h⟩ := bind_eq_ok h
    cases h
    exact from_parts (within_values read) nofun fun _ => rfl

/-! ## Bodies -/

/-- Further names have been given: each once, and none that was given already. -/
structure Binds (before names after : List String) : Prop where
  nodup : names.Nodup
  new : ∀ name ∈ names, name ∉ before
  mem : ∀ {name}, name ∈ after ↔ name ∈ names ∨ name ∈ before

theorem Binds.nil (before : List String) : Binds before [] before :=
  ⟨List.nodup_nil, nofun, by simp⟩

theorem Binds.append {before middle after names more : List String}
    (first : Binds before names middle) (second : Binds middle more after) :
    Binds before (names ++ more) after where
  nodup := by
    refine List.nodup_append.mpr ⟨first.nodup, second.nodup, fun a ha b hb same => ?_⟩
    exact second.new b hb (first.mem.mpr (.inl (same ▸ ha)))
  new name h := by
    rcases List.mem_append.mp h with here | later
    · exact first.new name here
    · exact fun old => second.new name later (first.mem.mpr (.inr old))
  mem := by
    intro name
    rw [second.mem, first.mem, List.mem_append]
    exact ⟨fun h => h.elim (fun h => .inl (.inr h)) fun h => h.elim (fun h => .inl (.inl h)) .inr,
      fun h => h.elim (fun h => h.elim (fun h => .inr (.inl h)) .inl) fun h => .inr (.inr h)⟩

/-- The names that a draft gives. -/
def Draft.resultNames (draft : Draft) : List String := draft.result.toList.map (·.1)

def DraftBlock.resultNames (draft : DraftBlock) : List String := draft.ops.flatMap Draft.resultNames

theorem binds_draftsOf {structs : List String} {place : Place} {forms : List Sexp}
    {bound bound' : List String} {drafts : List Draft}
    (h : draftsOf structs place bound forms = .ok (drafts, bound')) :
    Binds bound (drafts.flatMap Draft.resultNames) bound' := by
  induction forms generalizing bound drafts with
  | nil =>
    cases h
    exact .nil _
  | cons form forms ih =>
    obtain ⟨draft, _, h⟩ := bind_eq_ok h
    cases result : draft.result with
    | none =>
      simp only [result] at h
      obtain ⟨_, ⟨⟩, h⟩ := bind_eq_ok h
      obtain ⟨⟨rest, last⟩, more, h⟩ := bind_eq_ok h
      cases h
      rw [List.flatMap_cons, Draft.resultNames, result]
      exact ih more
    | some typed =>
      simp only [result] at h
      split at h
      next => cases h
      next new =>
        obtain ⟨_, ⟨⟩, h⟩ := bind_eq_ok h
        obtain ⟨⟨rest, last⟩, more, h⟩ := bind_eq_ok h
        cases h
        have first : Binds bound [typed.1] (typed.1 :: bound) := by
          refine ⟨List.pairwise_singleton _ _, ?_, by simp⟩
          intro name h
          rw [List.mem_singleton.mp h]
          exact new
        rw [List.flatMap_cons, Draft.resultNames, result]
        exact first.append (ih more)

theorem binds_draftBlocksOf {structs : List String} {function : String} {blocks : List (List Sexp)}
    {labels bound bound' : List String} {drafts : List DraftBlock}
    (h : draftBlocksOf structs function labels bound blocks = .ok (drafts, bound')) :
    Binds bound (drafts.flatMap DraftBlock.resultNames) bound' ∧ (drafts.map (·.label)).Nodup ∧
      (∀ label ∈ drafts.map (·.label), label ∉ labels) ∧ drafts.length = blocks.length := by
  induction blocks generalizing labels bound drafts with
  | nil =>
    cases h
    exact ⟨.nil _, List.nodup_nil, nofun, rfl⟩
  | cons parts blocks ih =>
    obtain ⟨label, _, h⟩ := bind_eq_ok h
    obtain ⟨new, h⟩ := guard_eq_ok h
    obtain ⟨⟨ops, middle⟩, first, h⟩ := bind_eq_ok h
    obtain ⟨⟨rest, last⟩, more, h⟩ := bind_eq_ok h
    cases h
    obtain ⟨binds, nodup, others, length⟩ := ih more
    refine ⟨?_, List.nodup_cons.mpr ⟨fun again => ?_, nodup⟩, ?_, congrArg (· + 1) length⟩
    · rw [List.flatMap_cons]
      exact (binds_draftsOf first).append binds
    · exact others label again List.mem_cons_self
    · refine List.forall_mem_cons.mpr ⟨new, fun other h old => ?_⟩
      exact others other h (List.mem_cons_of_mem _ old)

theorem ends_of_checkEnd {function : String} {labels : List String} {block : Block}
    (h : checkEnd function labels block = .ok ()) :
    ∃ op, block.ops.getLast? = some op ∧ op.kind.isTerminator = true ∧
    ∀ label ∈ op.targets, label ∈ labels := by
  unfold checkEnd at h
  split at h
  next op last =>
    split at h
    next terminator =>
      refine ⟨op, last, terminator, fun label mem => ?_⟩
      have known := forall_of_forM h label mem
      split at known
      next inside => exact inside
      next => cases known
    next => cases h
  next => cases h

/-- The bodies that are read are checked, and have as many blocks as they are written with. -/
theorem checked_of_bodyOf {structs globals : List String} {signature : Signature}
    {forms : List (List Sexp)} {blocks : List Block}
    (h : bodyOf structs globals signature forms = .ok blocks) :
    BodyChecked (signature.params.map (·.1)) globals blocks ∧ blocks.length = forms.length := by
  obtain ⟨⟨drafts, bound⟩, drafted, h⟩ := bind_eq_ok h
  obtain ⟨read, filled, h⟩ := bind_eq_ok h
  obtain ⟨⟨⟩, ended, h⟩ := bind_eq_ok h
  cases h
  obtain ⟨binds, labels, _, length⟩ := binds_draftBlocksOf drafted
  have row {draft : DraftBlock} {block : Block} (h : blockOf (bound ++ globals) draft = .ok block) :
      block.label = draft.label ∧ block.ops.flatMap Op.resultNames = draft.resultNames ∧
        ∀ op ∈ block.ops, ∃ draft, Op.From (bound ++ globals) draft op := by
    obtain ⟨ops, made, h⟩ := bind_eq_ok h
    cases h
    refine ⟨rfl, ?_, forall_of_mapM (fun draft _ op h => ⟨draft, from_opOf h⟩) made⟩
    refine flatMap_of_mapM (fun h => ?_) made
    rw [Op.resultNames, (from_opOf h).result, Draft.resultNames]
  have sameLabels : blocks.map (·.label) = drafts.map (·.label) :=
    map_of_mapM (fun h => (row h).1) filled
  have names : resultNames blocks = drafts.flatMap DraftBlock.resultNames :=
    flatMap_of_mapM (fun h => (row h).2.1) filled
  have ops : ∀ block ∈ blocks, ∀ op ∈ block.ops, ∃ draft, Op.From (bound ++ globals) draft op :=
    forall_of_mapM (fun _ _ _ h => (row h).2.2) filled
  refine ⟨⟨sameLabels ▸ labels, names ▸ binds.nodup, names ▸ binds.new, ?_, ?_, ?_⟩, ?_⟩
  · intro block hb op hop name hn
    obtain ⟨_, made⟩ := ops block hb op hop
    rw [names]
    rcases List.mem_append.mp (made.names name hn) with own | global
    · exact (binds.mem.mp own).elim (fun h => .inr (.inl h)) .inl
    · exact .inr (.inr global)
  · exact fun block hb => ends_of_checkEnd (forall_of_forM ended block hb)
  · intro block hb op hop
    obtain ⟨_, made⟩ := ops block hb op hop
    exact made.targets
  · rw [length_of_mapM filled, length]

/-! ## Items -/

/-- Reading the body of an item leaves what it is called and whether it has blocks. -/
theorem checked_of_withBody {structs globals : List String} {item : Item (List Sexp)}
    {read : Item Block} (h : item.withBody structs globals = .ok read) :
    read.Checked globals ∧ read.functionNames = item.functionNames ∧
      read.globalNames = item.globalNames ∧ read.definedName? = item.definedName? := by
  cases item with
  | struct name fields =>
    cases h
    exact ⟨trivial, rfl, rfl, rfl⟩
  | global name type =>
    cases h
    exact ⟨trivial, rfl, rfl, rfl⟩
  | function signature forms =>
    obtain ⟨blocks, body, h⟩ := bind_eq_ok h
    cases h
    obtain ⟨checked, length⟩ := checked_of_bodyOf body
    refine ⟨checked, rfl, rfl, ?_⟩
    cases blocks <;> cases forms <;> first | rfl | cases length

/-- The name of an item is its first part. -/
theorem parts_of_itemName {file : Place} {tag : String} {parts rest : List Sexp} {name : String}
    (h : itemName file tag parts = .ok (name, rest)) : ∃ first, parts = first :: rest ∧
    first.name? = some name := by
  cases parts with
  | nil => cases h
  | cons first parts =>
    obtain ⟨given, named, h⟩ := bind_eq_ok h
    cases h
    refine ⟨first, rfl, ?_⟩
    unfold nameOf at named
    split at named
    next found =>
      cases named
      exact found
    next => cases named

/-- An item is what its form makes it: a function has blocks if its form is a `function` form. -/
theorem definedName?_of_itemOf {structs known : List String} {file : Place} {form : Sexp}
    {item : Item (List Sexp)} (h : itemOf structs file known form = .ok item) :
    item.definedName? = form.definedName? ∧ ∀ name ∈ item.functionNames, name ∉ known := by
  unfold itemOf at h
  split at h
  next =>
    obtain ⟨⟨name, fields⟩, _, h⟩ := bind_eq_ok h
    obtain ⟨types, _, h⟩ := bind_eq_ok h
    cases h
    exact ⟨rfl, nofun⟩
  next =>
    obtain ⟨⟨name, rest⟩, _, h⟩ := bind_eq_ok h
    cases rest with
    | nil =>
      cases h
      exact ⟨rfl, nofun⟩
    | cons type more =>
      obtain ⟨type, _, h⟩ := bind_eq_ok h
      cases h
      exact ⟨rfl, nofun⟩
  next =>
    obtain ⟨⟨name, clauses⟩, _, h⟩ := bind_eq_ok h
    obtain ⟨new, h⟩ := guard_eq_ok h
    obtain ⟨read, _, h⟩ := bind_eq_ok h
    cases h
    refine ⟨rfl, fun other mem => ?_⟩
    rw [List.mem_singleton.mp mem]
    exact new
  next parts =>
    obtain ⟨⟨name, clauses⟩, called, h⟩ := bind_eq_ok h
    obtain ⟨new, h⟩ := guard_eq_ok h
    obtain ⟨read, _, h⟩ := bind_eq_ok h
    obtain ⟨filled, h⟩ := guard_eq_ok h
    cases h
    refine ⟨?_, fun other mem => ?_⟩
    · obtain ⟨first, rfl, spelled⟩ := parts_of_itemName called
      cases blocks : read.blocks with
      | nil =>
        rw [blocks] at filled
        exact absurd rfl filled
      | cons block blocks => exact spelled.symm
    · rw [List.mem_singleton.mp mem]
      exact new
  next => cases h
  next => cases h
  next => cases h

theorem names_of_itemsOf {structs known : List String} {file : Place} {forms : List Sexp}
    {items : List (Item (List Sexp))} (h : itemsOf structs file known forms = .ok items) :
    (items.flatMap Item.functionNames).Nodup ∧
    (∀ name ∈ items.flatMap Item.functionNames, name ∉ known) ∧
      items.filterMap Item.definedName? = forms.filterMap Sexp.definedName? := by
  induction forms generalizing known items with
  | nil =>
    cases h
    exact ⟨List.nodup_nil, nofun, rfl⟩
  | cons form forms ih =>
    obtain ⟨item, first, h⟩ := bind_eq_ok h
    obtain ⟨rest, more, h⟩ := bind_eq_ok h
    cases h
    obtain ⟨same, new⟩ := definedName?_of_itemOf first
    obtain ⟨nodup, later, defined⟩ := ih more
    have one : item.functionNames.Nodup := by
      cases item with
      | function signature blocks => exact List.pairwise_singleton _ _
      | _ => exact List.nodup_nil
    rw [List.flatMap_cons]
    refine ⟨List.nodup_append.mpr ⟨one, nodup, fun a ha b hb same => ?_⟩,
      List.forall_mem_append.mpr ⟨new, ?_⟩, ?_⟩
    · exact later b hb (List.mem_append_right _ (same ▸ ha))
    · exact fun name mem old => later name mem (List.mem_append_left _ old)
    · rw [List.filterMap_cons, List.filterMap_cons, same, defined]

/-! ## Modules -/

/-- A module's name gives no function a body. -/
theorem definedNames_splitName {file : Place} {parts forms : List Sexp} {name : String}
    (h : splitName file parts = .ok (name, forms)) :
    forms.filterMap Sexp.definedName? = parts.filterMap Sexp.definedName? := by
  unfold splitName at h
  split at h
  next =>
    cases h
    rfl
  next =>
    cases h
    rfl
  next first forms notList =>
    obtain ⟨name', _, h⟩ := bind_eq_ok h
    cases h
    have other : first.definedName? = none := by
      cases first with
      | list items => exact absurd rfl (notList items)
      | _ => rfl
    rw [List.filterMap_cons, other]

/-- A module that is read is checked, and gives bodies where it has `function` forms. -/
theorem checked_of_decode {file : String} {form : Sexp} {source : Source}
    (h : decode file form = .ok source) :
    source.Checked ∧ ∃ parts, form = .list (.symbol "module" :: parts) ∧
      source.items.filterMap Item.definedName? = parts.filterMap Sexp.definedName? := by
  obtain ⟨outline, outlined, h⟩ := bind_eq_ok h
  obtain ⟨items, filled, h⟩ := bind_eq_ok h
  cases h
  unfold Outline.decode at outlined
  split at outlined
  next parts =>
    obtain ⟨⟨name, forms⟩, split, outlined⟩ := bind_eq_ok outlined
    obtain ⟨structs, _, outlined⟩ := bind_eq_ok outlined
    obtain ⟨drafts, itemized, outlined⟩ := bind_eq_ok outlined
    cases outlined
    obtain ⟨nodup, _, defined⟩ := names_of_itemsOf itemized
    have functions : items.flatMap Item.functionNames = drafts.flatMap Item.functionNames :=
      flatMap_of_mapM (fun h => (checked_of_withBody h).2.1) filled
    have globals : items.flatMap Item.globalNames = drafts.flatMap Item.globalNames :=
      flatMap_of_mapM (fun h => (checked_of_withBody h).2.2.1) filled
    have bodies : items.filterMap Item.definedName? = drafts.filterMap Item.definedName? := by
      have same := congrArg (List.filterMap id)
        (map_of_mapM (fun h => (checked_of_withBody h).2.2.2) filled)
      rw [List.filterMap_map, List.filterMap_map] at same
      exact same
    refine ⟨⟨functions ▸ nodup, ?_⟩, parts, rfl, ?_⟩
    · intro item mem
      rw [globals]
      exact forall_of_mapM (fun _ _ _ h => (checked_of_withBody h).1) filled item mem
    · rw [bodies, defined, definedNames_splitName split]
  next => cases outlined

/-- A text that is read is checked, and gives bodies where it has `function` forms. -/
theorem checked_of_parse {read : Sexp.Reader} {file text : String} {source : Source}
    (h : parseWith read file text = .ok source) :
    source.Checked ∧ source.items.filterMap Item.definedName? = definedNames (read text) := by
  obtain ⟨form, given, h⟩ := decode_of_parse h
  obtain ⟨checked, parts, rfl, defined⟩ := checked_of_decode h
  refine ⟨checked, ?_⟩
  rw [defined, given]
  rfl

end Source
end Relock
