import Relock.Program.OfSource
import Relock.Proofs.Program.Wiring

/-!
# Reading a program back

What a program says of an operation, a block or a function, in the terms of a text. Names are all
that a text has for values, functions and blocks, so reading back forgets numbers and nothing else.
What a node reads back as depends on nodes it refers to through what every later program keeps of
them; so an operation that has been connected goes on to read back as what the text says of it.

Connecting the operations of a body is the last thing that this module follows: each of them gets
the operands and the callee of the text, and every number and function among its operands is a value
of its own.
-/

namespace Relock

/-- Numbers and functions as values belong to the operand they stand at. -/
def Origin.isLiteral : Origin → Bool
  | .constant _ | .functionRef => true
  | _ => false

/-- The names of values that an operation uses. -/
def Source.Op.names (op : Source.Op) : List String :=
  op.operands.filterMap (fun
    | .value name => some name
    | _ => none) ++
  match op.callee with
  | some (.value name) => [name]
  | _ => []

/-- An operation as it is laid out, before it is connected. -/
def Source.Op.bare (op : Source.Op) : Source.Op :=
  { op with callee := none, operands := [], indices := [], targets := [] }

namespace Program

variable {p q : Program} {changing : Nat → Prop}

/-! ## The text of nodes -/

def operandSource (p : Program) (v : ValueId) : Source.Operand :=
  match (p.value v).origin with
  | .constant n => .constant n
  | .functionRef => .function (p.value v).name
  | _ => .value (p.value v).name

def calleeSource (p : Program) : Callee → Option Source.Callee
  | .absent => none
  | .direct _ name => some (.function name)
  | .indirect v _ => some (.value (p.value v).name)

def typedName (p : Program) (v : ValueId) : String × Ty := ((p.value v).name, (p.value v).type)

def readOp (p : Program) (op : Operation) : Source.Op where
  kind := op.kind
  result := op.result.map p.typedName
  location := op.location
  callee := p.calleeSource op.callee
  operands := op.operands.map p.operandSource
  indices := op.indices
  targets := op.targets

def opSource (p : Program) (o : OpId) : Source.Op := p.readOp (p.op o)

def blockSource (p : Program) (b : BlockId) : Source.Block where
  label := (p.block b).name
  ops := (p.block b).ops.map p.opSource

def bodySource (p : Program) (f : FunctionId) : List Source.Block :=
  (p.function f).blocks.map p.blockSource

def signatureSource (p : Program) (f : FunctionId) : Source.Signature where
  name := (p.function f).name
  params := (p.function f).params.map p.typedName
  returns := (p.function f).returns

/-! ## What is kept is read back as before -/

section Keeps

variable (keeps : Keeps changing p q)
include keeps

theorem Keeps.operandSource {v : ValueId} {x : Value} (known : p.value? v = some x) :
    q.operandSource v = p.operandSource v := by
  obtain ⟨name, _, origin⟩ := keeps.value known
  simp only [Program.operandSource, name, origin]

theorem Keeps.typedName {v : ValueId} {x : Value} (known : p.value? v = some x) :
    q.typedName v = p.typedName v := by
  obtain ⟨name, type, _⟩ := keeps.value known
  simp only [Program.typedName, name, type]

theorem Keeps.calleeSource {f : FunctionId} {callee : Callee} (callable : p.Callable f callee) :
    q.calleeSource callee = p.calleeSource callee := by
  cases callee with
  | absent => rfl
  | direct g name => rfl
  | indirect v name =>
    obtain ⟨x, known⟩ := callable.1.value?
    simp only [Program.calleeSource, (keeps.value known).1]

/-- An operation reads back the same while what it refers to is kept. -/
theorem Keeps.readOp {o : OpId} {f : FunctionId} {op : Operation} (fits : p.OpFits o f op) :
    q.readOp op = p.readOp op := by
  have result : op.result.map q.typedName = op.result.map p.typedName := by
    refine Option.map_congr fun v hv => ?_
    obtain ⟨x, known, _⟩ := Option.map_eq_some_iff.mp (fits.result hv)
    exact keeps.typedName known
  have operands : op.operands.map q.operandSource = op.operands.map p.operandSource := by
    refine List.map_congr_left fun v hv => ?_
    obtain ⟨x, known⟩ := (fits.operands v hv).value?
    exact keeps.operandSource known
  simp only [Program.readOp, result, operands, keeps.calleeSource fits.callee]

variable (fitted : p.Fitted)
include fitted

theorem Keeps.opSource {o : OpId} {op : Operation} (kept : ¬ changing o)
    (known : p.op? o = some op) :
    q.opSource o = p.opSource o := by
  obtain ⟨_, _, _, _, fits⟩ := fitted.op known
  rw [Program.opSource, Program.opSource, op_eq known, op_eq (keeps.sameOp kept known)]
  exact keeps.readOp fits

theorem Keeps.blockSource {b : BlockId} {block : Block} (kept : ¬ changing b)
    (known : p.block? b = some block) (ops : ∀ o ∈ block.ops, ¬ changing o ∧ (p.op? o).isSome) :
    q.blockSource b = p.blockSource b := by
  have texts : block.ops.map q.opSource = block.ops.map p.opSource := by
    refine List.map_congr_left fun o ho => ?_
    obtain ⟨kept, there⟩ := ops o ho
    obtain ⟨op, there⟩ := Option.isSome_iff_exists.mp there
    exact keeps.opSource fitted kept there
  simp only [Program.blockSource, block_eq known, block_eq (keeps.sameBlock kept known), texts]

/-- A function that differs by its blocks has the signature that it had. -/
theorem Keeps.signatureSource {f : FunctionId} {fn : Function} {blocks : List BlockId}
    (known : p.function? f = some fn) (known' : q.function? f = some { fn with blocks := blocks }) :
    q.signatureSource f = p.signatureSource f := by
  have params : fn.params.map q.typedName = fn.params.map p.typedName := by
    refine List.map_congr_left fun v hv => ?_
    obtain ⟨x, known, _⟩ := Option.map_eq_some_iff.mp ((fitted.params known).2 v hv)
    exact keeps.typedName known
  simp only [Program.signatureSource, function_eq known, function_eq known', params]

end Keeps

/-! ## Names -/

/-- The names of a scope are the names of values of the function. -/
def Scoped (p : Program) (f : FunctionId) (scope : List (String × ValueId)) : Prop :=
  ∀ e ∈ scope, ∃ x, p.value? e.2 = some x ∧ x.name = e.1 ∧ x.origin.owner? = some f

/-- A name that has a value where a scope is open. -/
def Bound (p : Program) (scope : List (String × ValueId)) (name : String) : Prop :=
  name ∈ scope.map (·.1) ∨ (p.globals.get? name).isSome

theorem Scoped.mono (keeps : Keeps changing p q) {f : FunctionId} {scope : List (String × ValueId)}
    (inScope : p.Scoped f scope) : q.Scoped f scope := by
  intro e he
  obtain ⟨x, known, name, owner⟩ := inScope e he
  obtain ⟨uses, known'⟩ := keeps.value? known
  exact ⟨_, known', name, owner⟩

theorem Bound.mono (keeps : Keeps changing p q) {scope : List (String × ValueId)} {name : String}
    (bound : p.Bound scope name) : q.Bound scope name :=
  bound.imp_right keeps.globals

section Lookup

variable (named : p.Named) {f : FunctionId} {scope : List (String × ValueId)}
    (inScope : p.Scoped f scope)
  {name : String} (bound : p.Bound scope name)
include named inScope bound

/-- A bound name is the name of a value that the function may use, and no literal: of the value in
scope, or of a global if none of the name is in scope. -/
theorem lookup_bound : ∃ x, p.value? (p.lookup scope name) = some x ∧ x.name = name ∧
    x.origin.isLiteral = false ∧
    (x.origin.owner? = none ∨ x.origin.owner? = some f) ∧
    ((name, p.lookup scope name) ∈ scope ∨ x.origin = .global ∧ name ∉ scope.map (·.1)) := by
  unfold lookup
  cases found : scope.find? fun e => e.1 = name with
  | some e =>
    obtain ⟨x, known, same, owner⟩ := inScope e (List.mem_of_find?_eq_some found)
    have accepted := List.find?_some found
    have here : e.1 = name := of_decide_eq_true accepted
    refine ⟨x, known, same.trans here, ?_, .inr owner,
      .inl (here ▸ List.mem_of_find?_eq_some found)⟩
    cases origin : x.origin <;> rw [origin] at owner <;> first | rfl | cases owner
  | none =>
    have outside : name ∉ scope.map (·.1) := by
      intro h
      obtain ⟨e, mem, same⟩ := List.mem_map.mp h
      exact List.find?_eq_none.mp found e mem (decide_eq_true same)
    obtain ⟨v, given⟩ := Option.isSome_iff_exists.mp (bound.resolve_left outside)
    obtain ⟨x, known, same, origin⟩ := named.globals (Keyed.mem_of_get? given)
    simp only [given, Option.getD_some]
    exact ⟨x, known, same, by rw [origin]; rfl, .inl (by rw [origin]; rfl), .inr ⟨origin, outside⟩⟩

theorem usable_lookup : p.Usable f (p.lookup scope name) := by
  obtain ⟨x, known, _, _, owner, _⟩ := lookup_bound named inScope bound
  exact ⟨x.origin, originOf?_eq known, owner⟩

theorem name_lookup : (p.value (p.lookup scope name)).name = name := by
  obtain ⟨x, known, same, _⟩ := lookup_bound named inScope bound
  rw [value_eq known, same]

end Lookup

/-! ## Values for operands -/

/-- Whether a value is a literal. -/
def literal (p : Program) (v : ValueId) : Bool := (p.value v).origin.isLiteral

theorem operandSource_of_not_literal {v : ValueId} (h : p.literal v = false) :
    p.operandSource v = .value (p.value v).name := by
  unfold literal at h
  unfold operandSource
  cases origin : (p.value v).origin <;> rw [origin] at h <;> first | rfl | cases h

theorem Keeps.literal (keeps : Keeps changing p q) {v : ValueId} {x : Value}
    (known : p.value? v = some x) :
    q.literal v = p.literal v := by
  rw [Program.literal, (keeps.value known).2.2, Program.literal]

/-- A value that is seen where a scope is open: a literal, the value of a name in scope, or a global
of a name that is not in scope. -/
def Sees (p : Program) (scope : List (String × ValueId)) (v : ValueId) : Prop :=
  p.literal v = true ∨ ((p.value v).name, v) ∈ scope ∨ (p.value v).origin = .global ∧
    (p.value v).name ∉ scope.map (·.1)

theorem Keeps.sees (keeps : Keeps changing p q) {scope : List (String × ValueId)} {v : ValueId}
    {x : Value} (known : p.value? v = some x) (seen : p.Sees scope v) : q.Sees scope v := by
  obtain ⟨name, _, origin⟩ := keeps.value known
  rw [Sees, keeps.literal known, name, origin]
  exact seen

/-- The function of a name is there once it has been asked for. -/
theorem function?_addFunction (named : p.Named) (name : String) :
    ∃ fn, (p.addFunction name).2.function? (p.addFunction name).1 = some fn ∧ fn.name = name := by
  have declared : Quiet (fun _ => False) p (p.addFunction name).2 := quiet_addFunction p name
  have after := declared.named named
  refine after.functions (Keyed.mem_of_get? ?_)
  unfold addFunction
  cases found : p.functions.get? name with
  | some f => exact found
  | none => exact (Keyed.get?_set ..).trans (if_pos rfl)

/-- The values `vs` of `q` stand for operands, those that are literals having been made since
`p`. -/
structure Stand (p q : Program) (f : FunctionId) (scope : List (String × ValueId))
    (operands : List Source.Operand) (vs : List ValueId) : Prop where
  usable : ∀ v ∈ vs, q.Usable f v
  seen : ∀ v ∈ vs, q.Sees scope v
  reads : vs.map q.operandSource = operands
  fresh : ∀ v ∈ vs, q.literal v → p.nodes.size ≤ v
  distinct : (vs.filter q.literal).Nodup

section Operands

variable {f : FunctionId} {scope : List (String × ValueId)}

theorem stand_operandValue (changing : Nat → Prop) (named : p.Named) (inScope : p.Scoped f scope)
    (operand : Source.Operand) (bound : ∀ name, operand = .value name → p.Bound scope name) :
    Quiet changing p (operandValue scope p operand).2 ∧
      Stand p (operandValue scope p operand).2 f scope [operand]
      [(operandValue scope p operand).1] := by
  -- a literal is a node pushed
  have pushed {q : Program} (since : p.nodes.size ≤ q.nodes.size) (x : Value)
      (owner : x.origin.owner? = none) (literal : x.origin.isLiteral = true)
      (reads : (match x.origin with
        | .constant n => .constant n
        | .functionRef => .function x.name
        | _ => .value x.name) = operand) :
      Stand p (q.push (.value x)).2 f scope [operand] [q.nodes.size] := by
    have made : (q.push (.value x)).2.value? q.nodes.size = some x :=
      value?_eq_some.mpr (by rw [node_push, if_pos rfl])
    refine ⟨?_, ?_, ?_, ?_, ?_⟩
    · intro v hv
      rw [List.mem_singleton.mp hv]
      exact ⟨x.origin, originOf?_eq made, .inl owner⟩
    · intro v hv
      rw [List.mem_singleton.mp hv]
      exact .inl (by rw [Program.literal, value_eq made, literal])
    · simp only [List.map_cons, List.map_nil, operandSource, value_eq made, reads]
    · intro v hv _
      rw [List.mem_singleton.mp hv]
      exact since
    · exact List.Pairwise.filter _ (List.pairwise_singleton _ _)
  cases operand with
  | constant n => exact ⟨quiet_pushValue p rfl, pushed (Nat.le_refl _) _ rfl rfl rfl⟩
  | value name =>
    have here := bound name rfl
    obtain ⟨x, known, same, literal, _, seen⟩ := lookup_bound named inScope here
    have other : p.literal (p.lookup scope name) = false := by
      rw [Program.literal, value_eq known, literal]
    refine ⟨.refl changing p, ?_, ?_, ?_, ?_, ?_⟩
    · intro v hv
      rw [List.mem_singleton.mp hv]
      exact usable_lookup named inScope here
    · intro v hv
      rw [List.mem_singleton.mp hv]
      refine .inr ?_
      simp only [operandValue, value_eq known, same]
      exact seen
    · simp only [operandValue, List.map_cons, List.map_nil, operandSource_of_not_literal other,
        name_lookup named inScope here]
    · intro v hv is
      rw [List.mem_singleton.mp hv] at is
      cases other.symm.trans is
    · exact List.Pairwise.filter _ (List.pairwise_singleton _ _)
  | function name =>
    obtain ⟨fn, known, same⟩ := function?_addFunction named name
    have declared : Quiet changing p (p.addFunction name).2 := quiet_addFunction p name
    refine ⟨declared.trans (quiet_pushValue _ rfl), pushed declared.size _ rfl rfl ?_⟩
    show Source.Operand.function ((p.addFunction name).2.function (p.addFunction name).1).name =
      .function name
    rw [function_eq known, same]

/-- The operands of a text have their values, made in order. -/
theorem stand_operandValues (changing : Nat → Prop) (operands : List Source.Operand)
    (named : p.Named) (inScope : p.Scoped f scope)
    (bound : ∀ name, .value name ∈ operands → p.Bound scope name) :
    Quiet changing p (operandValues scope p operands).2 ∧
      Stand p (operandValues scope p operands).2 f scope operands
      (operandValues scope p operands).1 := by
  induction operands generalizing p with
  | nil =>
    exact ⟨.refl changing p, List.forall_mem_nil _, List.forall_mem_nil _, rfl,
      List.forall_mem_nil _, List.nodup_nil⟩
  | cons operand operands ih =>
    obtain ⟨quiet, first⟩ := stand_operandValue changing named inScope operand
      fun name h => bound name (h ▸ List.mem_cons_self)
    generalize made : operandValue scope p operand = one at quiet first
    obtain ⟨v, q⟩ := one
    obtain ⟨quiet', rest⟩ :=
      ih (p := q) (quiet.named named) (inScope.mono quiet.toKeeps) fun name h =>
      (bound name (List.mem_cons_of_mem _ h)).mono quiet.toKeeps
    have whole : operandValues scope p (operand :: operands) =
        (v :: (operandValues scope q operands).1, (operandValues scope q operands).2) := by
      simp only [operandValues, made]
    rw [whole]
    generalize operandValues scope q operands = more at quiet' rest
    obtain ⟨vs, r⟩ := more
    obtain ⟨x, known⟩ := (first.usable v List.mem_cons_self).value?
    have before : v < q.nodes.size := lt_size_of_value? q known
    refine ⟨quiet.trans quiet', ?_, ?_, ?_, ?_, ?_⟩
    · intro w hw
      rcases List.mem_cons.mp hw with rfl | later
      · exact quiet'.usable (first.usable w List.mem_cons_self)
      · exact rest.usable w later
    · intro w hw
      rcases List.mem_cons.mp hw with rfl | later
      · exact quiet'.sees known (first.seen w List.mem_cons_self)
      · exact rest.seen w later
    · have reads : q.operandSource v = operand := List.head_eq_of_cons_eq first.reads
      simp only [List.map_cons, rest.reads, quiet'.operandSource known, reads]
    · intro w hw is
      rcases List.mem_cons.mp hw with rfl | later
      · exact first.fresh w List.mem_cons_self (quiet'.literal known ▸ is)
      · exact Nat.le_trans quiet.size (rest.fresh w later is)
    · rw [List.filter_cons]
      split
      next =>
        refine List.nodup_cons.mpr ⟨fun again => ?_, rest.distinct⟩
        obtain ⟨mem, is⟩ := List.mem_filter.mp again
        exact Nat.not_le_of_lt before (rest.fresh v mem is)
      next => exact rest.distinct

theorem callable_calleeValue (changing : Nat → Prop) (named : p.Named) (inScope : p.Scoped f scope)
    (callee : Option Source.Callee)
    (bound : ∀ name, callee = some (.value name) → p.Bound scope name) :
    Quiet changing p (calleeValue scope p callee).2 ∧
      (calleeValue scope p callee).2.Callable f (calleeValue scope p callee).1 ∧
      (calleeValue scope p callee).2.calleeSource (calleeValue scope p callee).1 = callee := by
  match callee with
  | none => exact ⟨.refl changing p, trivial, rfl⟩
  | some (.function name) => exact ⟨quiet_addFunction p name, function?_addFunction named name, rfl⟩
  | some (.value name) =>
    have here := bound name rfl
    refine ⟨.refl changing p, ⟨usable_lookup named inScope here, rfl⟩, ?_⟩
    simp only [calleeValue, calleeSource, name_lookup named inScope here]

end Operands

/-! ## Literals -/

/-- A literal is used at one place at most. -/
def Once (p : Program) : Prop := ∀ v, p.literal v → (p.value v).uses.length ≤ 1

theorem Quiet.once (quiet : Quiet changing p q) (once : p.Once) : q.Once := by
  intro v is
  have uses : (q.value v).uses = (p.value v).uses := by rw [uses_eq, uses_eq, quiet.wiring]
  rw [uses]
  cases known : p.value? v with
  | none => simp only [value, known, Option.getD_none]; exact Nat.zero_le 1
  | some x => exact once v (quiet.literal known ▸ is)

/-- Literals that have no use yet get one. -/
theorem Once.attach {o : OpId} (vs : List ValueId) (once : p.Once)
    (known : ∀ v ∈ vs, ∃ x, p.value? v = some x)
    (unused : ∀ v ∈ vs, p.literal v → (p.value v).uses = [])
    (distinct : (vs.filter p.literal).Nodup) :
    (p.attach o vs).Once := by
  induction vs generalizing p with
  | nil => exact once
  | cons v vs ih =>
    obtain ⟨x, here⟩ := known v List.mem_cons_self
    have keeps : Keeps (fun _ => True) p (p.attachOne o v) := keeps_attachOne p trivial v
    have literal (w : ValueId) : (p.attachOne o v).literal w = p.literal w := by
      rw [Program.literal, value_attachOne here]
      split <;> rfl
    have other {w : ValueId} (hw : w ∈ vs) (is : p.literal w) : w ≠ v := by
      rintro rfl
      rw [List.filter_cons_of_pos is] at distinct
      exact (List.nodup_cons.mp distinct).1 (List.mem_filter.mpr ⟨hw, is⟩)
    refine ih ?_ ?_ ?_ ?_
    · intro w is
      rw [literal] at is
      rw [value_attachOne here]
      split
      next same =>
        subst same
        simp only [unused w List.mem_cons_self is, List.nil_append, List.length_singleton,
          Nat.le_refl]
      next => exact once w is
    · intro w hw
      obtain ⟨y, there⟩ := known w (List.mem_cons_of_mem _ hw)
      obtain ⟨uses, there'⟩ := keeps.value? there
      exact ⟨_, there'⟩
    · intro w hw is
      rw [literal] at is
      rw [value_attachOne here, if_neg (other hw is)]
      exact unused w (List.mem_cons_of_mem _ hw) is
    · have same : (p.attachOne o v).literal = p.literal := funext literal
      rw [same]
      exact distinct.sublist ((List.sublist_cons_self v vs).filter _)

/-! ## Connecting operations -/

section Wire

variable {f : FunctionId} {scope : List (String × ValueId)}

/-- An operation of a function, laid out and not connected. -/
def Ready (p : Program) (f : FunctionId) (o : OpId) (op : Source.Op) : Prop :=
  ∃ made b, p.op? o = some made ∧ made.block = some b ∧ p.ownerOf? b = some f ∧ made.operands = [] ∧
    p.readOp made = op.bare

theorem Ready.mono (keeps : Keeps changing p q) (fitted : p.Fitted) {o : OpId} {op : Source.Op}
    (kept : ¬ changing o) (ready : p.Ready f o op) : q.Ready f o op := by
  obtain ⟨made, b, placed, held, owner, bare, reads⟩ := ready
  obtain ⟨_, _, _, _, fits⟩ := fitted.op placed
  exact ⟨made, b, keeps.sameOp kept placed, held, keeps.ownerOf? owner, bare,
    (keeps.readOp fits).trans reads⟩

/-- What holds while a body is connected. -/
structure Connecting (p : Program) (f : FunctionId) (scope : List (String × ValueId)) : Prop where
  sane : p.Sane
  once : p.Once
  inScope : p.Scoped f scope

/-- A connected operation reads back as the text says, and its operands are seen in the scope. -/
structure Follows (p : Program) (scope : List (String × ValueId)) (o : OpId)
    (op : Source.Op) : Prop where
  text : p.opSource o = op
  seen : ∀ v ∈ (p.op o).operands, p.Sees scope v

theorem Follows.mono (keeps : Keeps changing p q) (fitted : p.Fitted) {o : OpId} {made : Operation}
    {op : Source.Op} (kept : ¬ changing o) (known : p.op? o = some made)
    (follows : p.Follows scope o op) : q.Follows scope o op := by
  obtain ⟨_, _, _, _, fits⟩ := fitted.op known
  refine ⟨(keeps.opSource fitted kept known).trans follows.text, fun v hv => ?_⟩
  rw [op_eq (keeps.sameOp kept known)] at hv
  obtain ⟨x, there⟩ := (fits.operands v hv).value?
  exact keeps.sees there (follows.seen v (by rw [op_eq known]; exact hv))

theorem Connecting.wireOp (state : p.Connecting f scope) {o : OpId} {op : Source.Op}
    (ready : p.Ready f o op) (bound : ∀ name ∈ op.names, p.Bound scope name) :
    Keeps (· = o) p (wireOp scope p (o, op)) ∧ (Program.wireOp scope p (o, op)).Connecting f scope ∧
      (Program.wireOp scope p (o, op)).Follows scope o op := by
  obtain ⟨made, b, placed, held, owner, bare, reads⟩ := ready
  obtain ⟨called, callable, callee⟩ :=
    callable_calleeValue (fun _ => False) state.sane.named state.inScope op.callee
    fun name h => bound name (List.mem_append_right _ (by rw [h]; exact List.mem_singleton_self _))
  have whole : Program.wireOp scope p (o, op) =
      (((operandValues scope (calleeValue scope p op.callee).2 op.operands).2.modifyOp o fun made =>
        { made with callee := (calleeValue scope p op.callee).1, indices := op.indices,
                    targets := op.targets }).attach o
          (operandValues scope (calleeValue scope p op.callee).2 op.operands).1) := rfl
  rw [whole]
  generalize calleeValue scope p op.callee = answer at called callable callee
  obtain ⟨target, p₁⟩ := answer
  obtain ⟨filled, stand⟩ :=
    stand_operandValues (fun _ => False) op.operands (called.named state.sane.named)
    (state.inScope.mono called.toKeeps) fun name h => (bound name (List.mem_append_left _
      (List.mem_filterMap.mpr ⟨_, h, rfl⟩))).mono called.toKeeps
  generalize operandValues scope p₁ op.operands = answer at filled stand
  obtain ⟨vs, p₂⟩ := answer
  -- until here nothing that there was has changed
  have quiet : Quiet (fun _ => False) p p₂ := called.trans filled
  have placed₂ : p₂.op? o = some made := quiet.sameOp id placed
  have owner₂ := quiet.ownerOf? owner
  have fits : p.OpFits o f made := by
    obtain ⟨_, _, held', owner', fits⟩ := state.sane.fitted.op placed
    obtain rfl := Option.some.inj (held.symm.trans held')
    obtain rfl := Option.some.inj (owner.symm.trans owner')
    exact fits
  let labelled (op' : Operation) : Operation :=
    { op' with callee := target, indices := op.indices, targets := op.targets }
  have labels : Quiet (· = o) p₂ (p₂.modifyOp o labelled) := by
    refine quiet_modifyOp rfl (fun _ => ⟨rfl, rfl⟩) (fun _ => rfl) ?_
    intro op' b' f' found held' owner' fits'
    cases (op?_eq_some.mp placed₂).symm.trans found
    obtain rfl := Option.some.inj (held.symm.trans held')
    obtain rfl := Option.some.inj (owner₂.symm.trans owner')
    exact ⟨fits'.result, fits'.operands, filled.callable callable⟩
  have placed₃ : (p₂.modifyOp o labelled).op? o = some (labelled made) := by
    rw [op?_modifyOp, if_pos rfl, placed₂]
    rfl
  have sane₂ := quiet.sane state.sane
  obtain ⟨sane, final⟩ := (labels.sane sane₂).attach vs placed₃ held (labels.ownerOf? owner₂)
    fun v hv => labels.usable (stand.usable v hv)
  have attached :
      Keeps (· = o) (p₂.modifyOp o labelled) ((p₂.modifyOp o labelled).attach o vs) := by
    refine keeps_attach ?_ vs _
    exact rfl
  have keeps₂ : Keeps (· = o) p₂ ((p₂.modifyOp o labelled).attach o vs) :=
    labels.toKeeps.trans attached
  have keeps : Keeps (· = o) p ((p₂.modifyOp o labelled).attach o vs) :=
    (quiet.toKeeps.weaken False.elim).trans keeps₂
  have known (v : ValueId) (hv : v ∈ vs) : ∃ x, p₂.value? v = some x := (stand.usable v hv).value?
  refine ⟨keeps, ⟨sane, ?_, state.inScope.mono keeps⟩, ?_, ?_⟩
  · have literal {v : ValueId} (hv : v ∈ vs) :
        (p₂.modifyOp o labelled).literal v = p₂.literal v := by
      obtain ⟨x, known⟩ := known v hv
      exact labels.literal known
    refine (labels.once (quiet.once state.once)).attach vs (fun v hv => ?_) (fun v hv is => ?_) ?_
    · obtain ⟨x, known⟩ := known v hv
      obtain ⟨uses, known'⟩ := labels.value? known
      exact ⟨_, known'⟩
    · -- a literal is younger than `p₁`, and so has no use
      have young := stand.fresh v hv (literal hv ▸ is)
      rw [uses_eq, labels.wiring, filled.wiring, node_of_size_le p₁ young]
      rfl
    · rw [List.filter_congr fun v hv => literal hv]
      exact stand.distinct
  · have operands : vs.map ((p₂.modifyOp o labelled).attach o vs).operandSource = op.operands := by
      rw [← stand.reads]
      refine List.map_congr_left fun v hv => ?_
      obtain ⟨x, known⟩ := known v hv
      exact keeps₂.operandSource known
    have target' : ((p₂.modifyOp o labelled).attach o vs).calleeSource target = op.callee := by
      rw [keeps₂.calleeSource (filled.callable callable), filled.calleeSource callable, callee]
    have reads' := (keeps.readOp fits).trans reads
    simp only [readOp, Source.Op.bare, Source.Op.mk.injEq] at reads'
    obtain ⟨kind, result, location, _⟩ := reads'
    simp only [opSource, op_eq final, readOp, labelled, bare, List.nil_append, operands, target',
      kind, result, location]
  · intro v hv
    simp only [op_eq final, labelled, bare, List.nil_append] at hv
    obtain ⟨x, known⟩ := known v hv
    exact keeps₂.sees known (stand.seen v hv)

theorem Connecting.wireOps (placed : List (OpId × Source.Op)) (state : p.Connecting f scope)
    (distinct : (placed.map (·.1)).Nodup) (ready : ∀ e ∈ placed, p.Ready f e.1 e.2)
    (bound : ∀ e ∈ placed, ∀ name ∈ e.2.names, p.Bound scope name) :
    Keeps (· ∈ placed.map (·.1)) p (placed.foldl (Program.wireOp scope) p) ∧
      (placed.foldl (Program.wireOp scope) p).Connecting f scope ∧
      ∀ e ∈ placed, (placed.foldl (Program.wireOp scope) p).Follows scope e.1 e.2 := by
  induction placed generalizing p with
  | nil => exact ⟨.refl _ p, state, List.forall_mem_nil _⟩
  | cons first placed ih =>
    obtain ⟨o, op⟩ := first
    obtain ⟨once, distinct⟩ := List.nodup_cons.mp distinct
    obtain ⟨here, ready⟩ := List.forall_mem_cons.mp ready
    obtain ⟨boundHere, bound⟩ := List.forall_mem_cons.mp bound
    obtain ⟨one, state', follows⟩ := state.wireOp here boundHere
    have other {e : OpId × Source.Op} (he : e ∈ placed) : e.1 ≠ o := by
      intro same
      have member : e.1 ∈ placed.map (·.1) := List.mem_map_of_mem he
      exact once (same ▸ member)
    obtain ⟨rest, final, others⟩ :=
      ih state' distinct (fun e he => (ready e he).mono one state.sane.fitted (other he))
      fun e he name hn => (bound e he name hn).mono one
    refine ⟨?_, final, List.forall_mem_cons.mpr ⟨?_, others⟩⟩
    · refine (one.weaken fun h => ?_).trans (rest.weaken fun h => List.mem_cons_of_mem _ h)
      exact h ▸ List.mem_cons_self
    · obtain ⟨_, _, placed₀, _⟩ := here
      obtain ⟨op', placed', _⟩ := one.op? placed₀
      exact follows.mono rest state'.sane.fitted once placed'

end Wire

end Program
end Relock
