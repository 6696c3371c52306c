import Mathlib.Data.List.Nodup
import Relock.Proofs.Program.Faithful
import Relock.Proofs.Program.Ops

/-!
# Well-formed programs

Everything that a walk over a program meets, it meets at one place: `inventory` lists the numbers of
the functions, blocks, operations and values in the order of such a walk, literals at the operands
they stand for. The analyses key what they have seen by these numbers, follow operands to uses and
back, and take the control flow from the successors; `WellFormed` is what they rely on. Every
program that is loaded is well-formed.
-/

namespace Relock

/-- The sort of a node; values are sorted by their origin. -/
def Node.sort : Node → Nat
  | .vacant => 0
  | .function _ => 1
  | .block _ => 2
  | .operation _ => 3
  | .value v => match v.origin with
    | .global => 4
    | .argument _ => 5
    | .result _ _ => 6
    | .constant _ | .functionRef => 7

namespace Program

variable {p : Program}

/-- The results of a function in program order. -/
def resultsOf (p : Program) (f : FunctionId) : List ValueId :=
  (p.opsOf f).flatMap fun o => (p.op o).result.toList

/-- The literals among the operands of an operation. -/
def literalsOf (p : Program) (o : OpId) : List ValueId := (p.op o).operands.filter p.literal

def blockIds (p : Program) : List BlockId := p.functionIds.flatMap fun f => (p.function f).blocks

def paramIds (p : Program) : List ValueId := p.functionIds.flatMap fun f => (p.function f).params

def resultIds (p : Program) : List ValueId := p.allOps.flatMap fun o => (p.op o).result.toList

def literalIds (p : Program) : List ValueId := p.allOps.flatMap p.literalsOf

/-- The numbers of everything in a program. -/
def inventory (p : Program) : List Nat :=
  p.functionIds ++ p.blockIds ++ p.allOps ++ p.globals.entries ++ p.paramIds ++ p.resultIds ++
    p.literalIds

/-- An operation stands in its block and its function, defines its result there and uses what the
function may use. -/
structure OpPlaced (p : Program) (f : FunctionId) (b : BlockId) (o : OpId) : Prop where
  held : o ∈ (p.block b).ops
  block : (p.op o).block = some b
  function : (p.block b).function = f
  result : ∀ {v}, (p.op o).result = some v → (p.value v).origin = .result o f
  operands : ∀ v ∈ (p.op o).operands, (p.value v).origin.owner? = none ∨
    (p.value v).origin.owner? = some f

/-- A block ends in a terminator and leads to the blocks that it names, each listed where it is
first named. -/
def EndsIn (p : Program) (f : FunctionId) (b : BlockId) : Prop :=
  ∃ (o : OpId) (targets : List BlockId), p.terminator? b = some o ∧
    (p.op o).targets.map (p.blockNamed? f) = targets.map some ∧
    (p.block b).successors = targets.eraseDups

/-- What the analyses take for granted of a program. -/
structure WellFormed (p : Program) : Prop where
  distinct : p.inventory.Nodup
  uses : ∀ {v o i}, ⟨o, i⟩ ∈ (p.value v).uses ↔ (p.op o).operands[i]? = some v
  uses_nodup : ∀ v, (p.value v).uses.Nodup
  ops : ∀ o ∈ p.allOps, ∃ f ∈ p.functionIds, ∃ b ∈ (p.function f).blocks, p.OpPlaced f b o
  labels : ∀ f, ((p.function f).blocks.map fun b => (p.block b).name).Nodup
  results : ∀ f, ((p.resultsOf f).map fun v => (p.value v).name).Nodup
  params : ∀ f, ∀ v ∈ p.resultsOf f, ∀ w ∈ (p.function f).params,
    (p.value v).name ≠ (p.value w).name
  ends : ∀ {f b}, b ∈ (p.function f).blocks → p.EndsIn f b
  inside : ∀ {f b}, b ∈ (p.function f).blocks → (p.block b).successors ⊆ (p.function f).blocks
  edges : ∀ {a b}, b ∈ (p.block a).successors ↔ a ∈ (p.block b).predecessors
  successors_nodup : ∀ b, (p.block b).successors.Nodup
  predecessors_nodup : ∀ b, (p.block b).predecessors.Nodup

/-! ## Numbers -/

/-- Numbers of nodes of one sort, each once. -/
structure OfSort (p : Program) (sort : Nat) (row : List Nat) : Prop where
  nodup : row.Nodup
  sort : ∀ i ∈ row, (p.node i).sort = sort

/-- Rows whose members know where they belong have no member in common. -/
theorem nodup_flatMap_of_home (home : Nat → Option Nat) {part : Nat → List Nat} {row : List Nat}
    (nodup : row.Nodup) (parts : ∀ a ∈ row, (part a).Nodup)
    (belongs : ∀ a ∈ row, ∀ i ∈ part a, home i = some a) :
    (row.flatMap part).Nodup := by
  refine List.pairwise_flatMap.mpr ⟨parts, ?_⟩
  refine List.Pairwise.imp_of_mem (fun {a b} ha hb other i hi j hj same => other ?_) nodup
  have here := belongs a ha i hi
  rw [same, belongs b hb j hj] at here
  exact (Option.some.inj here).symm

section Inventory

variable (sane : p.Sane) (shape : p.Shape)

include shape in
theorem known_of_mem_functionIds {f : FunctionId} (h : f ∈ p.functionIds) :
    ∃ fn, p.function? f = some fn :=
  Option.isSome_iff_exists.mp (shape.registered.known f h)

include shape in
theorem op?_of_mem_allOps {o : OpId} (h : o ∈ p.allOps) : ∃ op, p.op? o = some op := by
  obtain ⟨f, _, hf⟩ := List.mem_flatMap.mp h
  obtain ⟨b, _, ho⟩ := mem_opsOf.mp hf
  exact shape.op?_of_mem ho

theorem origin_eq {v : ValueId} {origin : Origin} (h : p.originOf? v = some origin) :
    (p.value v).origin = origin ∧
      (p.node v).sort = (Node.value { name := "", type := .void, origin, uses := [] }).sort := by
  obtain ⟨x, known, rfl⟩ := Option.map_eq_some_iff.mp h
  rw [value_eq known, value?_eq_some.mp known]
  exact ⟨rfl, rfl⟩

include sane shape in
theorem opPlaced_of_mem_allOps {o : OpId} (h : o ∈ p.allOps) :
    ∃ f ∈ p.functionIds, ∃ b ∈ (p.function f).blocks, p.OpPlaced f b o := by
  obtain ⟨f, hf, own⟩ := List.mem_flatMap.mp h
  obtain ⟨b, hb, ho⟩ := mem_opsOf.mp own
  obtain ⟨op, known⟩ := shape.op?_of_mem ho
  obtain ⟨b', f', block, owner, fits⟩ := sane.fitted.op known
  have home := shape.op_of_mem ho
  obtain rfl : b' = b := by
    rw [op_eq known, block] at home
    exact Option.some.inj home
  obtain rfl : f' = f := (function_of_ownerOf? owner).symm.trans (shape.function_of_mem hb)
  refine ⟨f', (List.mem_filter.mp hf).1, b', hb, ho, home, shape.function_of_mem hb, ?_, ?_⟩
  · intro v result
    rw [op_eq known] at result
    exact (origin_eq (fits.result result)).1
  · intro v operand
    rw [op_eq known] at operand
    obtain ⟨origin, comes, owner⟩ := fits.operands v operand
    rw [(origin_eq comes).1]
    exact owner

include sane in
/-- A literal stands at one place. -/
theorem place_of_literal (once : p.Once) {v : ValueId} (is : p.literal v) {o o' : OpId} {i j : Nat}
    (first : (p.op o).operands[i]? = some v) (second : (p.op o').operands[j]? = some v) :
    o = o' ∧ i = j := by
  have one := once v is
  have here := sane.wired.uses.mpr first
  have there := sane.wired.uses.mpr second
  match uses : (p.value v).uses with
  | [] =>
    rw [uses] at here
    cases here
  | [use] =>
    rw [uses] at here there
    have same := (List.mem_singleton.mp here).trans (List.mem_singleton.mp there).symm
    cases same
    exact ⟨rfl, rfl⟩
  | _ :: _ :: _ =>
    rw [uses] at one
    exact absurd one (by simp)

include sane in
theorem literalsOf_nodup (once : p.Once) (o : OpId) : (p.literalsOf o).Nodup := by
  refine List.pairwise_filter.mpr (List.pairwise_iff_getElem.mpr fun i j hi hj less is _ same => ?_)
  have first : (p.op o).operands[i]? = some (p.op o).operands[i] := List.getElem?_eq_getElem hi
  have second : (p.op o).operands[j]? = some (p.op o).operands[i] :=
    same ▸ List.getElem?_eq_getElem hj
  exact Nat.ne_of_lt less (place_of_literal sane once is first second).2

include shape in
theorem ofSort_functionIds : p.OfSort 1 p.functionIds := by
  refine ⟨shape.registered.distinct, fun f hf => ?_⟩
  obtain ⟨fn, known⟩ := known_of_mem_functionIds shape hf
  rw [function?_eq_some.mp known, Node.sort]

include shape in
theorem ofSort_blockIds : p.OfSort 2 p.blockIds := by
  refine ⟨nodup_flatMap_of_home p.ownerOf? shape.registered.distinct (fun f _ =>
    shape.blocks_nodup f) ?_, ?_⟩
  · intro f _ b hb
    obtain ⟨block, known, owner⟩ := shape.block_of_mem hb
    rw [ownerOf?_eq known, owner]
  · intro b hb
    obtain ⟨f, _, held⟩ := List.mem_flatMap.mp hb
    obtain ⟨block, known, _⟩ := shape.block_of_mem held
    rw [block?_eq_some.mp known, Node.sort]

include shape in
theorem ofSort_allOps : p.OfSort 3 p.allOps := by
  refine ⟨allOps_nodup shape, fun o ho => ?_⟩
  obtain ⟨op, known⟩ := op?_of_mem_allOps shape ho
  rw [op?_eq_some.mp known, Node.sort]

include sane in
theorem ofSort_globals : p.OfSort 4 p.globals.entries := by
  refine ⟨sane.named.distinct, fun v hv => ?_⟩
  obtain ⟨⟨name, v⟩, mem, rfl⟩ := List.mem_map.mp hv
  obtain ⟨x, known, _, origin⟩ := sane.named.globals mem
  exact (origin_eq ((originOf?_eq known).trans (congrArg some origin))).2

include sane shape in
theorem ofSort_paramIds : p.OfSort 5 p.paramIds := by
  have params {f : FunctionId} (hf : f ∈ p.functionIds) :
      (p.function f).params.Nodup ∧
        ∀ v ∈ (p.function f).params, p.originOf? v = some (.argument f) := by
    obtain ⟨fn, known⟩ := known_of_mem_functionIds shape hf
    rw [function_eq known]
    exact sane.fitted.params known
  refine ⟨nodup_flatMap_of_home (fun v => (p.value v).origin.owner?) shape.registered.distinct
    (fun f hf => (params hf).1) ?_, ?_⟩
  · intro f hf v hv
    rw [(origin_eq ((params hf).2 v hv)).1]
    rfl
  · intro v hv
    obtain ⟨f, hf, held⟩ := List.mem_flatMap.mp hv
    exact (origin_eq ((params hf).2 v held)).2

include sane shape in
theorem ofSort_resultIds : p.OfSort 6 p.resultIds := by
  have result {o : OpId} (ho : o ∈ p.allOps) {v : ValueId} (hv : v ∈ (p.op o).result.toList) :
      ∃ f, p.originOf? v = some (.result o f) := by
    obtain ⟨op, known⟩ := op?_of_mem_allOps shape ho
    obtain ⟨_, f, _, _, fits⟩ := sane.fitted.op known
    rw [op_eq known] at hv
    exact ⟨f, fits.result (Option.mem_toList.mp hv)⟩
  refine ⟨nodup_flatMap_of_home p.definingOp? (allOps_nodup shape) (fun o _ => ?_) ?_, ?_⟩
  · cases (p.op o).result with
    | none => exact List.nodup_nil
    | some v => exact List.pairwise_singleton _ _
  · intro o ho v hv
    obtain ⟨f, origin⟩ := result ho hv
    rw [definingOp?, (origin_eq origin).1]
    rfl
  · intro v hv
    obtain ⟨o, ho, held⟩ := List.mem_flatMap.mp hv
    obtain ⟨f, origin⟩ := result ho held
    exact (origin_eq origin).2

theorem sort_of_literal {v : ValueId} (is : p.literal v) : (p.node v).sort = 7 := by
  cases known : p.value? v with
  | none =>
    rw [literal, Program.value, known] at is
    cases is
  | some x =>
    rw [literal, value_eq known] at is
    rw [value?_eq_some.mp known, Node.sort]
    cases origin : x.origin with
    | constant n => rfl
    | functionRef => rfl
    | _ =>
      rw [origin] at is
      cases is

include sane shape in
theorem ofSort_literalIds (once : p.Once) : p.OfSort 7 p.literalIds := by
  refine ⟨nodup_flatMap_of_home (fun v => (p.value v).uses.head?.map (·.op)) (allOps_nodup shape)
    (fun o _ => literalsOf_nodup sane once o) ?_, ?_⟩
  · intro o _ v hv
    obtain ⟨operand, is⟩ := List.mem_filter.mp hv
    obtain ⟨i, at_⟩ := List.getElem?_of_mem operand
    have use := sane.wired.uses.mpr at_
    match uses : (p.value v).uses with
    | [] =>
      rw [uses] at use
      cases use
    | ⟨o', j⟩ :: _ =>
      have first := sane.wired.uses.mp (uses ▸ List.mem_cons_self : ⟨o', j⟩ ∈ (p.value v).uses)
      rw [(place_of_literal sane once is first at_).1]
      rfl
  · intro v hv
    obtain ⟨o, _, held⟩ := List.mem_flatMap.mp hv
    exact sort_of_literal (List.mem_filter.mp held).2

/-- Numbers of nodes of a further sort. -/
theorem OfSort.append {sort : Nat} {row more : List Nat}
    (first : row.Nodup ∧ ∀ i ∈ row, (p.node i).sort < sort) (second : p.OfSort sort more) :
    (row ++ more).Nodup ∧ ∀ i ∈ row ++ more, (p.node i).sort < sort + 1 := by
  refine ⟨List.nodup_append.mpr ⟨first.1, second.nodup, fun i hi j hj same => ?_⟩, fun i hi => ?_⟩
  · exact absurd (first.2 i hi) (by rw [same, second.sort j hj]; exact Nat.lt_irrefl sort)
  · rcases List.mem_append.mp hi with old | new
    · exact Nat.lt_succ_of_lt (first.2 i old)
    · rw [second.sort i new]
      exact Nat.lt_succ_self sort

include sane shape in
theorem inventory_nodup (once : p.Once) : p.inventory.Nodup := by
  have functions : p.functionIds.Nodup ∧ ∀ f ∈ p.functionIds, (p.node f).sort < 2 := by
    refine ⟨(ofSort_functionIds shape).nodup, fun f hf => ?_⟩
    rw [(ofSort_functionIds shape).sort f hf]
    exact Nat.lt_succ_self 1
  have blocks := OfSort.append functions (ofSort_blockIds shape)
  have ops := OfSort.append blocks (ofSort_allOps shape)
  have globals := OfSort.append ops (ofSort_globals sane)
  have params := OfSort.append globals (ofSort_paramIds sane shape)
  have results := OfSort.append params (ofSort_resultIds sane shape)
  exact (OfSort.append results (ofSort_literalIds sane shape once)).1

end Inventory

/-! ## Names and ends -/

theorem labels_bodySource (p : Program) (f : FunctionId) :
    (p.bodySource f).map (·.label) = (p.function f).blocks.map fun b => (p.block b).name := by
  rw [bodySource, List.map_map]
  rfl

theorem resultNames_bodySource (p : Program) (f : FunctionId) :
    Source.resultNames (p.bodySource f) = (p.resultsOf f).map fun v => (p.value v).name := by
  have op (o : OpId) : (p.opSource o).resultNames =
      (p.op o).result.toList.map fun v => (p.value v).name := by
    rw [Source.Op.resultNames, opSource, readOp]
    cases (p.op o).result <;> rfl
  rw [Source.resultNames, bodySource, resultsOf, opsOf, List.flatMap_map, List.flatMap_assoc,
    List.map_flatMap]
  refine List.flatMap_congr fun b _ => ?_
  rw [blockSource, List.flatMap_map, List.map_flatMap]
  exact List.flatMap_congr fun o _ => op o

/-- A label of a block of a function names one. -/
theorem blockNamed?_of_mem {f : FunctionId} {label : String}
    (h : label ∈ (p.bodySource f).map (·.label)) :
    ∃ b, p.blockNamed? f label = some b := by
  rw [labels_bodySource] at h
  obtain ⟨b, hb, same⟩ := List.mem_map.mp h
  refine Option.isSome_iff_exists.mp (List.find?_isSome.mpr ⟨b, List.mem_reverse.mpr hb, ?_⟩)
  exact decide_eq_true same

/-- The last operation of a block is its terminator, and its labels name blocks. -/
theorem Faithful.last {form : Except String Sexp} (faithful : p.Faithful form) {f : FunctionId}
    {b : BlockId} (hb : b ∈ (p.function f).blocks) :
    ∃ o, (p.block b).ops.getLast? = some o ∧ (p.op o).kind.isTerminator = true ∧
    p.terminator? b = some o ∧
      ∀ label ∈ (p.op o).targets, ∃ t, p.blockNamed? f label = some t := by
  obtain ⟨globals, checked⟩ := faithful.checked f
  obtain ⟨op, last, terminator, targets⟩ := checked.ends (p.blockSource b) (List.mem_map_of_mem hb)
  rw [blockSource, List.getLast?_map] at last
  obtain ⟨o, found, rfl⟩ := Option.map_eq_some_iff.mp last
  have kind : (p.op o).kind.isTerminator = true := terminator
  refine ⟨o, found, kind, ?_, fun label h => blockNamed?_of_mem (targets label h)⟩
  rw [terminator?, found, Option.filter_some, kind, if_pos rfl]

theorem Faithful.endsIn {form : Except String Sexp} (faithful : p.Faithful form) {f : FunctionId}
    {b : BlockId} (hb : b ∈ (p.function f).blocks) : p.EndsIn f b := by
  obtain ⟨o, _, _, ends, targets⟩ := faithful.last hb
  refine ⟨o, (p.op o).targets.filterMap (p.blockNamed? f), ends, ?_, ?_⟩
  · generalize (p.op o).targets = labels at targets
    induction labels with
    | nil => rfl
    | cons label labels ih =>
      obtain ⟨⟨t, named⟩, targets⟩ := List.forall_mem_cons.mp targets
      rw [List.map_cons, List.filterMap_cons, named, ih targets, List.map_cons]
  · rw [faithful.linked hb, targetsOf, ends]

theorem Faithful.wellFormed {form : Except String Sexp} (faithful : p.Faithful form) :
    p.WellFormed where
  distinct := inventory_nodup faithful.sane faithful.shape faithful.once
  uses := faithful.sane.wired.uses
  uses_nodup := faithful.sane.wired.uses_nodup
  ops _ := opPlaced_of_mem_allOps faithful.sane faithful.shape
  labels f := by
    obtain ⟨_, checked⟩ := faithful.checked f
    rw [← labels_bodySource]
    exact checked.labels
  results f := by
    obtain ⟨_, checked⟩ := faithful.checked f
    rw [← resultNames_bodySource]
    exact checked.results
  params f v hv w hw same := by
    obtain ⟨_, checked⟩ := faithful.checked f
    refine checked.fresh (p.value v).name ?_ ?_
    · rw [resultNames_bodySource]
      exact List.mem_map.mpr ⟨v, hv, rfl⟩
    · rw [same, signatureSource, List.map_map]
      exact List.mem_map.mpr ⟨w, hw, rfl⟩
  ends := faithful.endsIn
  inside hb _ hs := faithful.shape.successor_mem_blocks hb hs
  edges := faithful.sane.wired.edges
  successors_nodup := faithful.shape.successors_nodup
  predecessors_nodup := faithful.sane.wired.predecessors_nodup

end Program

/-- Loaded programs are well-formed, and a function has blocks if its text gives it a body. -/
theorem load_wellFormed {read : Sexp.Reader} {file text : String} {p : Program}
    (h : Program.loadWith read file text = .ok p) :
    p.WellFormed ∧ ∀ f ∈ p.functionIds, (p.function f).blocks ≠ [] ↔
      (p.function f).name ∈ Source.definedNames (read text) :=
  have faithful := Program.faithful_of_load h
  ⟨faithful.wellFormed, faithful.defined⟩

/-- A loop that is named twice, a global, numbers and functions as operands, and a function that is
only mentioned. -/
def wovenText : String := "(module woven (global g (ptr i8))
(function \"f\" (params (x i64) (y i64))
  (block a (call r i64 \"h\" x 7 7 \"f\" g) (switch r b b a))
  (block b (phi z i64 r 7) (ret z)))
(declare \"k\" (params i64)))"

set_option maxRecDepth 4000 in
theorem load_wellFormed_woven : ∃ p, Program.load "woven" wovenText = .ok p ∧
    p.inventory = [2, 5, 15, 7, 11, 8, 10, 12, 14, 1, 3, 4, 6, 9, 13, 16, 17, 18, 19] ∧
    (p.block 7).successors = [11, 7] ∧ p.WellFormed ∧
    ((p.function 2).blocks ≠ [] ↔
      (p.function 2).name ∈ Source.definedNames (Sexp.reader wovenText)) := by
  obtain ⟨p, loaded, checked⟩ : ∃ p, Program.load "woven" wovenText = .ok p ∧
      decide (p.inventory = [2, 5, 15, 7, 11, 8, 10, 12, 14, 1, 3, 4, 6, 9, 13, 16, 17, 18, 19] ∧
        (p.block 7).successors = [11, 7] ∧ 2 ∈ p.functionIds) = true :=
    Program.exists_of_load rfl (by decide +kernel)
  obtain ⟨numbers, successors, listed⟩ := of_decide_eq_true checked
  obtain ⟨wellFormed, defined⟩ := load_wellFormed loaded
  exact ⟨p, loaded, numbers, successors, wellFormed, defined 2 listed⟩

end Relock
