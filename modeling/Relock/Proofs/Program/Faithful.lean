import Relock.Proofs.Program.Linked
import Relock.Proofs.Source.Checked

/-!
# Programs say what their texts say

A program made from a text has a function for every function item of the text, with the signature
and the body of the item. First all items are declared, then the bodies are made; a function that is
only mentioned is declared on the way and stays without blocks. `Declaring` and `Building` are what
holds after some of the items of each of the two passes.
-/

namespace Relock.Program

variable {p q : Program} {changing : Nat → Prop} {f g : FunctionId} {β : Type}

/-! ## Signatures -/

/-- A function known by the name of a signature, with that signature. -/
structure Declares (p : Program) (signature : Source.Signature) (f : FunctionId) : Prop where
  named : p.functions.get? signature.name = some f
  text : p.signatureSource f = signature

theorem Declares.known (named : p.Named) {signature : Source.Signature}
    (declares : p.Declares signature f) :
    ∃ fn, p.function? f = some fn := by
  obtain ⟨fn, known, _⟩ := named.functions (Keyed.mem_of_get? declares.named)
  exact ⟨fn, known⟩

theorem Declares.mono (keeps : Keeps changing p q) (sane : p.Sane) {signature : Source.Signature}
    (kept : ¬ changing f) (declares : p.Declares signature f) : q.Declares signature f := by
  obtain ⟨fn, known⟩ := declares.known sane.named
  have text := keeps.signatureSource sane.fitted known (keeps.sameFunction kept known)
  exact ⟨keeps.functions declares.named, text.trans declares.text⟩

theorem addParams_made (params : List (String × Ty)) {fn : Function}
    (known : p.function? f = some fn) :
    Quiet (· = f) p (params.foldl (fun p (name, type) => (p.addParam f name type).2) p) ∧
      ∃ vs, (params.foldl (fun p (name, type) => (p.addParam f name type).2) p).function? f =
          some { fn with params := fn.params ++ vs } ∧
        vs.map (params.foldl (fun p (name, type) => (p.addParam f name type).2) p).typedName =
          params := by
  induction params generalizing p fn with
  | nil => exact ⟨.refl _ p, [], by rw [List.append_nil]; exact known, rfl⟩
  | cons param params ih =>
    obtain ⟨name, type⟩ := param
    have one : Quiet (· = f) p (p.addParam f name type).2 := by
      refine quiet_addParam p ?_ name type
      exact rfl
    have before : f ≠ p.nodes.size := Nat.ne_of_lt (lt_size_of_function? p known)
    have next : (p.addParam f name type).2.function? f =
        some { fn with params := fn.params ++ [p.nodes.size] } := by
      simp only [addParam, function?_modifyFunction, if_true, function?_push, if_neg before, known,
        Option.map_some]
      rfl
    have value : (p.addParam f name type).2.node p.nodes.size =
        .value { name := name, type := type, origin := .argument f, uses := [] } := by
      simp only [addParam, modifyFunction]
      rw [node_modify _ _ rfl, if_neg before.symm, node_push, if_pos rfl]
    obtain ⟨rest, vs, final, texts⟩ := ih next
    refine ⟨one.trans rest, p.nodes.size :: vs, ?_, ?_⟩
    · rw [List.append_assoc] at final
      exact final
    · have known' := value?_eq_some.mpr value
      rw [List.map_cons, List.foldl_cons, texts, rest.typedName known', typedName, value_eq known']

/-- An item for a function that is not known yet declares it. -/
theorem declares_declareItem {signature : Source.Signature} (blocks : List β)
    (absent : p.functions.get? signature.name = none) :
    Quiet (fun i => p.nodes.size ≤ i) p (p.declareItem (.function signature blocks)) ∧
      ∃ f, (p.declareItem (.function signature blocks)).Declares signature f := by
  let fn : Function := { name := signature.name, params := [], blocks := [], returns := .void }
  have made : p.addFunction signature.name = (p.nodes.size,
      { (p.push (.function fn)).2 with
        functions := p.functions.set signature.name p.nodes.size }) := by
    simp only [addFunction, absent]
    rfl
  have added : Quiet (fun i => p.nodes.size ≤ i) p (p.addFunction signature.name).2 :=
    quiet_addFunction p signature.name
  have named : (p.addFunction signature.name).2.functions.get? signature.name =
      some p.nodes.size := by
    rw [made]
    exact (Keyed.get?_set ..).trans (if_pos rfl)
  have known : (p.addFunction signature.name).2.function? p.nodes.size = some fn := by
    rw [made]
    exact (function?_push p (.function fn) p.nodes.size).trans (if_pos rfl)
  obtain ⟨params, vs, held, texts⟩ := addParams_made signature.params known
  have whole : p.declareItem (.function signature blocks) = (signature.params.foldl
      (fun q (name, type) => (q.addParam (p.addFunction signature.name).1 name type).2)
      (p.addFunction signature.name).2).modifyFunction (p.addFunction signature.name).1 fun fn =>
        { fn with returns := signature.returns } := rfl
  have number : (p.addFunction signature.name).1 = p.nodes.size := by rw [made]
  rw [whole, number]
  generalize signature.params.foldl (fun q (name, type) => (q.addParam p.nodes.size name type).2)
    (p.addFunction signature.name).2 = q at params held texts
  have returns : Quiet (fun i => p.nodes.size ≤ i) q (q.modifyFunction p.nodes.size fun fn =>
      { fn with returns := signature.returns }) := by
    refine quiet_modifyFunction (Nat.le_refl _) ?_ ?_
    · exact fun _ => rfl
    · exact fun _ => rfl
  refine ⟨added.trans ((params.weaken fun h => Nat.le_of_eq h.symm).trans returns),
    p.nodes.size, ?_, ?_⟩
  · exact returns.functions (params.functions named)
  · have typed : (q.modifyFunction p.nodes.size fun fn =>
        { fn with returns := signature.returns }).typedName = q.typedName := by
      funext v
      simp only [typedName, Program.value, value?_modifyFunction]
    simp only [signatureSource, Program.function, function?_modifyFunction, if_true, held,
      Option.map_some, Option.getD_some, List.nil_append, typed, texts, fn]

theorem quiet_declareItem {item : Source.Item β}
    (absent : ∀ name ∈ item.functionNames, p.functions.get? name = none) :
    Quiet (fun i => p.nodes.size ≤ i) p (p.declareItem item) := by
  cases item with
  | struct name fields => exact quiet_setStruct p name fields
  | global name type => exact quiet_addGlobal p name type
  | function signature blocks =>
    exact (declares_declareItem blocks (absent signature.name List.mem_cons_self)).1

/-- An item gives no name to a function but its own. -/
theorem functions_declareItem {item : Source.Item β} {name : String}
    (h : (p.declareItem item).functions.get? name = some f) :
    p.functions.get? name = some f ∨ name ∈ item.functionNames := by
  cases item with
  | struct _ _ => exact .inl h
  | global _ _ => exact .inl h
  | function signature blocks =>
    have params (row : List (String × Ty)) (q : Program) (f : FunctionId) :
        (row.foldl (fun q (name, type) => (q.addParam f name type).2) q).functions =
          q.functions := by
      induction row generalizing q with
      | nil => rfl
      | cons param row ih => exact (ih _).trans rfl
    have same : (p.declareItem (.function signature blocks)).functions =
        (p.addFunction signature.name).2.functions :=
      params signature.params _ _
    rw [same, addFunction] at h
    split at h
    next => exact .inl h
    next =>
      change (p.functions.set signature.name p.nodes.size).get? name = some f at h
      rw [Keyed.get?_set] at h
      split at h
      next here => exact .inr (here ▸ List.mem_cons_self)
      next => exact .inl h

/-- What holds when some items have been declared. -/
structure Declaring (p : Program) (items : List (Source.Item β)) : Prop where
  sane : p.Sane
  once : p.Once
  functions : ∀ {signature blocks}, .function signature blocks ∈ items → ∃ f, p.Declares signature f
  names : ∀ {name f}, p.functions.get? name = some f →
    name ∈ items.flatMap Source.Item.functionNames
  globals : ∀ name ∈ items.flatMap Source.Item.globalNames, (p.globals.get? name).isSome

theorem Declaring.declareItem {items : List (Source.Item β)} (state : p.Declaring items)
    {item : Source.Item β}
    (new : ∀ name ∈ item.functionNames, name ∉ items.flatMap Source.Item.functionNames) :
    (p.declareItem item).Declaring (items ++ [item]) := by
  have absent : ∀ name ∈ item.functionNames, p.functions.get? name = none := by
    intro name mem
    cases found : p.functions.get? name with
    | none => rfl
    | some f => exact absurd (state.names found) (new name mem)
  have quiet : Quiet (fun i => p.nodes.size ≤ i) p (p.declareItem item) := quiet_declareItem absent
  refine ⟨quiet.sane state.sane, quiet.once state.once, ?_, ?_, ?_⟩
  · intro signature blocks mem
    rcases List.mem_append.mp mem with old | new
    · obtain ⟨f, declares⟩ := state.functions old
      obtain ⟨fn, known⟩ := declares.known state.sane.named
      exact ⟨f, declares.mono quiet.toKeeps state.sane
        (Nat.not_le_of_lt (lt_size_of_function? p known))⟩
    · obtain rfl := List.mem_singleton.mp new
      exact (declares_declareItem blocks (absent signature.name List.mem_cons_self)).2
  · intro name f given
    rw [List.flatMap_append]
    rcases functions_declareItem given with old | own
    · exact List.mem_append_left _ (state.names old)
    · exact List.mem_append_right _ (List.mem_flatMap.mpr ⟨item, List.mem_singleton_self item, own⟩)
  · intro name mem
    rw [List.flatMap_append] at mem
    rcases List.mem_append.mp mem with old | new
    · exact quiet.globals (state.globals name old)
    · obtain ⟨_, here, own⟩ := List.mem_flatMap.mp new
      rw [List.mem_singleton.mp here] at own
      cases item with
      | global given type =>
        rw [List.mem_singleton.mp own]
        exact Option.isSome_of_eq_some ((Keyed.get?_set ..).trans (if_pos rfl))
      | struct _ _ => cases own
      | function _ _ => cases own

theorem Declaring.declareItems (more : List (Source.Item β)) {items : List (Source.Item β)}
    (state : p.Declaring items)
    (distinct : ((items ++ more).flatMap Source.Item.functionNames).Nodup) :
    (more.foldl Program.declareItem p).Declaring (items ++ more) := by
  induction more generalizing p items with
  | nil =>
    rw [List.append_nil]
    exact state
  | cons item more ih =>
    have new : ∀ name ∈ item.functionNames, name ∉ items.flatMap Source.Item.functionNames := by
      intro name own old
      rw [List.flatMap_append, List.flatMap_cons] at distinct
      exact (List.nodup_append.mp distinct).2.2 name old name (List.mem_append_left _ own) rfl
    have row : items ++ item :: more = (items ++ [item]) ++ more := by
      rw [List.append_assoc, List.singleton_append]
    rw [row] at distinct ⊢
    exact ih (state.declareItem new) distinct

theorem declaring_empty (name : String) : (empty name).Declaring ([] : List (Source.Item β)) := by
  refine ⟨sane_empty name, fun v is => ?_, nofun, nofun, nofun⟩
  have nothing : (empty name).value v = default := by
    cases v <;> rfl
  rw [literal, nothing] at is
  cases is

/-! ## Bodies -/

section Frame

variable (keeps : Keeps (fun i => i = f ∨ p.nodes.size ≤ i) p q) {fn : Function}
    (known : p.function? f = some fn)
include keeps known

/-- The body of another function stays. -/
theorem HasBody.mono (sane : p.Sane) (shape : p.Shape) (other : g ≠ f) {fg : Function}
    (there : p.function? g = some fg) {blocks : List Source.Block} (body : p.HasBody g blocks) :
    q.HasBody g blocks := by
  have function : q.function g = p.function g := by
    rw [function_eq there]
    exact function_eq (keeps.sameFunction (not_eq_or_le (lt_size_of_function? p there) other) there)
  have block {b : BlockId} (held : b ∈ (p.function g).blocks) :
      ∃ found, p.block? b = some found ∧ ¬ (b = f ∨ p.nodes.size ≤ b) := by
    obtain ⟨found, is, _⟩ := shape.block_of_mem held
    exact ⟨found, is, not_eq_or_le (lt_size_of_block? p is) (ne_of_block?_of_function? is known)⟩
  have sameBlock {b : BlockId} (held : b ∈ (p.function g).blocks) : q.block b = p.block b := by
    obtain ⟨found, is, kept⟩ := block held
    rw [block_eq is, block_eq (keeps.sameBlock kept is)]
  have op {b : BlockId} {o : OpId} (held : o ∈ (p.block b).ops) :
      ∃ found, p.op? o = some found ∧ ¬ (o = f ∨ p.nodes.size ≤ o) := by
    obtain ⟨found, is⟩ := shape.op?_of_mem held
    exact ⟨found, is, not_eq_or_le (lt_size_of_op? p is) (ne_of_op?_of_function? is known)⟩
  have sameOp {b : BlockId} {o : OpId} (held : o ∈ (p.block b).ops) : q.op o = p.op o := by
    obtain ⟨found, is, kept⟩ := op held
    rw [op_eq is, op_eq (keeps.sameOp kept is)]
  have signature : q.signatureSource g = p.signatureSource g :=
    keeps.signatureSource sane.fitted there
      (keeps.sameFunction (not_eq_or_le (lt_size_of_function? p there) other) there)
  refine ⟨?_, fun b hb => ?_, fun b hb o ho v hv => ?_⟩
  · rw [← body.text, bodySource, bodySource, function]
    refine List.map_congr_left fun b hb => ?_
    obtain ⟨found, is, kept⟩ := block hb
    refine keeps.blockSource sane.fitted kept is fun o ho => ?_
    rw [← block_eq is] at ho
    obtain ⟨found', is', kept'⟩ := op ho
    exact ⟨kept', Option.isSome_of_eq_some is'⟩
  · rw [function] at hb
    rw [sameBlock hb, body.linked b hb]
    refine congrArg _ (targetsOf_congr (by rw [function]) (fun c hc => ?_) (fun c hc o ho =>
      sameOp ho) hb).symm
    rw [sameBlock hc]
    exact ⟨rfl, rfl⟩
  · rw [function] at hb
    rw [sameBlock hb] at ho
    rw [sameOp ho] at hv
    obtain ⟨found, is, _⟩ := op ho
    obtain ⟨_, _, _, _, fits⟩ := sane.fitted.op is
    obtain ⟨x, known⟩ := (fits.operands v (by rw [← op_eq is]; exact hv)).value?
    obtain ⟨name, _, origin⟩ := keeps.value known
    rw [signature, Value.Resolved, Value.OwnName, name, origin]
    exact body.resolved b hb o ho v hv

end Frame

theorem blocks_layoutOp (layout : Layout) (b : BlockId) (op : Source.Op) (g : FunctionId) :
    ((Layout.addOp b layout op).program.function g).blocks =
      (layout.program.function g).blocks := by
  have dressed := (sameShape_dressOp layout.program b op.kind [] op.result).blocks g
  have located : (Layout.addOp b layout op).program.function g =
      (layout.program.dressOp b op.kind [] op.result).function g := by
    show ((layout.program.addOp b op.kind [] op.result).2.modifyOp _ _).function g = _
    rw [addOp_eq]
    simp only [Program.function, function?_modifyOp, function?_modifyBlock]
  rw [located, dressed, Program.function, function?_pushOp, Program.function]

theorem blocks_layoutBlock (layout : Layout) (block : Source.Block) (other : g ≠ f) :
    ((Layout.addBlock f layout block).program.function g).blocks =
      (layout.program.function g).blocks := by
  have ops (row : List Source.Op) (b : BlockId) (layout : Layout) :
      ((row.foldl (Layout.addOp b) layout).program.function g).blocks =
        (layout.program.function g).blocks := by
    induction row generalizing layout with
    | nil => rfl
    | cons op row ih => exact (ih _).trans (blocks_layoutOp layout b op g)
  refine (ops block.ops _ _).trans ?_
  show ((layout.program.addBlock f block.label).2.function g).blocks = _
  rw [Program.function, function?_addBlock, if_neg other, Program.function]

theorem function?_linkBlocks (row : List BlockId) (p : Program) (g : FunctionId) :
    (row.foldl (linkBlock f) p).function? g = p.function? g :=
  (relinked_linkBlocks row p).function? g

/-- Making a body gives blocks to no other function. -/
theorem blocks_addBody (p : Program) (blocks : List Source.Block) (other : g ≠ f) :
    ((p.addBody f blocks).function g).blocks = (p.function g).blocks := by
  have layout (row : List Source.Block) (layout : Layout) :
      ((row.foldl (Layout.addBlock f) layout).program.function g).blocks =
        (layout.program.function g).blocks := by
    induction row generalizing layout with
    | nil => rfl
    | cons block row ih => exact (ih _).trans (blocks_layoutBlock layout block other)
  unfold addBody
  simp only [Program.function, function?_linkBlocks]
  refine ((SameShape.foldl (sameShape_wireOp _) _ _).blocks g).trans ?_
  exact layout blocks _

theorem Declares.ne {signature other : Source.Signature} (declares : p.Declares signature f)
    (others : p.Declares other g) (names : other.name ≠ signature.name) : g ≠ f := by
  rintro rfl
  exact names (congrArg Source.Signature.name (others.text.symm.trans declares.text))

/-- What holds when the bodies of some items have been made. -/
structure Building (p : Program) (done rest : List (Source.Item Source.Block)) : Prop where
  sane : p.Sane
  once : p.Once
  finished : p.Finished
  made : ∀ {signature blocks}, .function signature blocks ∈ done → ∃ f, p.Declares signature f ∧
    p.HasBody f blocks
  waiting : ∀ {signature blocks}, .function signature blocks ∈ rest →
    ∃ f, p.Declares signature f ∧ (p.function f).blocks = []
  bodies : ∀ {f}, (p.function f).blocks ≠ [] →
    ∃ signature blocks, Source.Item.function signature blocks ∈ done ∧ p.Declares signature f

section Building

variable {done rest : List (Source.Item Source.Block)} {item : Source.Item Source.Block}

/-- An item for which nothing is to be made. -/
theorem Building.skip (state : p.Building done (item :: rest))
    (body : ∀ {signature blocks}, item = .function signature blocks → blocks = []) :
    p.Building (done ++ [item]) rest := by
  refine ⟨state.sane, state.once, state.finished, ?_,
    fun h => state.waiting (List.mem_cons_of_mem _ h), fun h => ?_⟩
  · intro signature blocks mem
    rcases List.mem_append.mp mem with old | new
    · exact state.made old
    · have same := List.mem_singleton.mp new
      obtain ⟨f, declares, empty⟩ := state.waiting (List.mem_cons.mpr (.inl same))
      refine ⟨f, declares, ?_, ?_, ?_⟩
      · rw [bodySource, empty, body same.symm]
        rfl
      · rw [empty]
        exact List.forall_mem_nil _
      · rw [empty]
        exact List.forall_mem_nil _
  · obtain ⟨signature, blocks, mem, declares⟩ := state.bodies h
    exact ⟨signature, blocks, List.mem_append_left _ mem, declares⟩

/-- The body of an item is made, and the others stay. -/
theorem Building.addBody {signature : Source.Signature} {blocks : List Source.Block}
    (state : p.Building done (.function signature blocks :: rest))
    (distinct : ((done ++ .function signature blocks :: rest).flatMap
      Source.Item.functionNames).Nodup)
    (complete : ∀ block ∈ blocks, ∀ op ∈ block.ops, op.Complete) (declares : p.Declares signature f)
    {fn : Function} (known : p.function? f = some fn)
    (made : BodyMade p f blocks (p.addBody f blocks)) :
    (p.addBody f blocks).Building (done ++ [.function signature blocks]) rest := by
  have kept {g : FunctionId} {fg : Function} (there : p.function? g = some fg) (other : g ≠ f) :
      ¬ (g = f ∨ p.nodes.size ≤ g) :=
    not_eq_or_le (lt_size_of_function? p there) other
  rw [List.flatMap_append, List.flatMap_cons] at distinct
  obtain ⟨_, later, apart⟩ := List.nodup_append.mp distinct
  have beforeHere {other : Source.Signature} {blocks' : List Source.Block}
      (mem : .function other blocks' ∈ done) :
      other.name ≠ signature.name :=
    apart _ (List.mem_flatMap.mpr ⟨_, mem, List.mem_cons_self⟩) _
      (List.mem_append_left _ List.mem_cons_self)
  have afterHere {other : Source.Signature} {blocks' : List Source.Block}
      (mem : .function other blocks' ∈ rest) :
      other.name ≠ signature.name := fun same =>
    (List.nodup_cons.mp later).1 (List.mem_flatMap.mpr ⟨_, mem, same ▸ List.mem_cons_self⟩)
  have declares' : (p.addBody f blocks).Declares signature f :=
    ⟨made.keeps.functions declares.named, made.signature.trans declares.text⟩
  refine
    { sane := made.sane, once := made.once
      finished := state.finished.addBody (Option.isSome_of_eq_some known) complete
      made := ?_, waiting := ?_, bodies := ?_ }
  · intro other blocks' mem
    rcases List.mem_append.mp mem with old | new
    · obtain ⟨g, others, body⟩ := state.made old
      obtain ⟨fg, there⟩ := others.known state.sane.named
      have ne := declares.ne others (beforeHere old)
      exact ⟨g, others.mono made.keeps state.sane (kept there ne),
        body.mono made.keeps known state.sane state.finished.shape ne there⟩
    · cases List.mem_singleton.mp new
      exact ⟨f, declares', made.body⟩
  · intro other blocks' mem
    obtain ⟨g, others, empty⟩ := state.waiting (List.mem_cons_of_mem _ mem)
    obtain ⟨fg, there⟩ := others.known state.sane.named
    have ne := declares.ne others (afterHere mem)
    exact ⟨g, others.mono made.keeps state.sane (kept there ne),
      (blocks_addBody p blocks ne).trans empty⟩
  · intro g filled
    by_cases here : g = f
    · exact ⟨signature, blocks, List.mem_append_right _ (List.mem_singleton_self _),
        here ▸ declares'⟩
    · rw [blocks_addBody p blocks here] at filled
      obtain ⟨other, blocks', mem, others⟩ := state.bodies filled
      obtain ⟨fg, there⟩ := others.known state.sane.named
      exact ⟨other, blocks', List.mem_append_left _ mem,
        others.mono made.keeps state.sane (kept there here)⟩

/-- The body of an item changes the function of the item, and nothing else that there was. -/
theorem Building.addItemBody {globals : List String} (state : p.Building done (item :: rest))
    (distinct : ((done ++ item :: rest).flatMap Source.Item.functionNames).Nodup)
    (complete : item.Complete) (checked : item.Checked globals)
    (given : ∀ name ∈ globals, (p.globals.get? name).isSome) :
    (p.addItemBody item).Building (done ++ [item]) rest ∧
      Keeps (fun i => (∃ name ∈ item.functionNames, p.functions.get? name = some i) ∨
        p.nodes.size ≤ i) p (p.addItemBody item) := by
  match item with
  | .struct _ _ => exact ⟨state.skip nofun, .refl _ p⟩
  | .global _ _ => exact ⟨state.skip nofun, .refl _ p⟩
  | .function signature [] => exact ⟨state.skip fun h => by cases h; rfl, .refl _ p⟩
  | .function signature (block :: blocks) =>
    obtain ⟨f, declares, empty⟩ := state.waiting List.mem_cons_self
    obtain ⟨fn, known⟩ := declares.known state.sane.named
    have made : BodyMade p f (block :: blocks) (p.addBody f (block :: blocks)) := by
      refine bodyMade_addBody state.sane state.once known ?_ fun block hb op hop name hn => ?_
      · rw [function_eq known] at empty
        exact empty
      · rw [declares.text]
        exact (checked.bound block hb op hop name hn).imp_right fun h => h.imp_right (given name)
    have whole : p.addItemBody (.function signature (block :: blocks)) =
        p.addBody f (block :: blocks) := by
      simp only [Program.addItemBody, declares.named]
    rw [whole]
    refine ⟨state.addBody distinct complete declares known made, made.keeps.weaken fun {i} h => ?_⟩
    rcases h with rfl | young
    · exact .inl ⟨signature.name, List.mem_cons_self, declares.named⟩
    · exact .inr young

theorem Building.addItemBodies {globals : List String} (items : List (Source.Item Source.Block))
    (state : p.Building done items)
    (distinct : ((done ++ items).flatMap Source.Item.functionNames).Nodup)
    (complete : ∀ item ∈ items, item.Complete) (checked : ∀ item ∈ items, item.Checked globals)
    (given : ∀ name ∈ globals, (p.globals.get? name).isSome) :
    (items.foldl Program.addItemBody p).Building (done ++ items) [] := by
  induction items generalizing p done with
  | nil =>
    rw [List.append_nil]
    exact state
  | cons item items ih =>
    obtain ⟨here, complete⟩ := List.forall_mem_cons.mp complete
    obtain ⟨checkedHere, checked⟩ := List.forall_mem_cons.mp checked
    obtain ⟨next, keeps⟩ := state.addItemBody distinct here checkedHere given
    have row : done ++ item :: items = (done ++ [item]) ++ items := by
      rw [List.append_assoc, List.singleton_append]
    rw [row] at distinct ⊢
    exact ih next distinct complete checked fun name h => keeps.globals (given name h)

end Building

/-- When all items of a checked text have been declared, every body is to be made. -/
theorem building_declared {source : Source} (checked : source.Checked) :
    (source.items.foldl declareItem (empty source.name)).Declaring source.items ∧
      (source.items.foldl declareItem (empty source.name)).Building [] source.items := by
  have declared := (declaring_empty source.name).declareItems source.items checked.functions
  have shaped := SameShape.foldl (fun p (item : Source.Item Source.Block) =>
    sameShape_declareItem p item) source.items
    (empty source.name)
  have finished := (finished_empty source.name).of_same shaped
  rw [List.nil_append] at declared
  generalize source.items.foldl declareItem (empty source.name) = p at declared shaped finished
  have empty (f : FunctionId) : (p.function f).blocks = [] := by
    rw [shaped.blocks f]
    cases f <;> rfl
  refine ⟨declared, declared.sane, declared.once, finished, nofun, fun mem => ?_,
    fun filled => absurd (empty _) filled⟩
  obtain ⟨f, declares⟩ := declared.functions mem
  exact ⟨f, declares, empty f⟩

/-- A program made from a checked text has the functions of the text. -/
theorem building_ofSource {source : Source} (checked : source.Checked)
    (complete : ∀ item ∈ source.items, item.Complete) :
    (ofSource source).Building source.items [] := by
  obtain ⟨declared, start⟩ := building_declared checked
  exact start.addItemBodies source.items checked.functions complete checked.items declared.globals

/-! ## Loaded programs -/

/-- What a program has from its text: every body is checked and linked, and the functions with a
body are those that the text gives one to. -/
structure Faithful (p : Program) (form : Except String Sexp) : Prop where
  sane : p.Sane
  once : p.Once
  shape : p.Shape
  checked : ∀ f, ∃ globals, Source.BodyChecked ((p.signatureSource f).params.map (·.1)) globals
    (p.bodySource f)
  linked : ∀ {f b}, b ∈ (p.function f).blocks → (p.block b).successors = (p.targetsOf f b).eraseDups
  defined : ∀ f ∈ p.functionIds, (p.function f).blocks ≠ [] ↔
    (p.function f).name ∈ Source.definedNames form

/-- The item of a function with blocks. -/
theorem Building.item {items : List (Source.Item Source.Block)} (state : p.Building items [])
    (filled : (p.function f).blocks ≠ []) :
    ∃ signature, .function signature (p.bodySource f) ∈ items ∧ p.Declares signature f ∧
      p.HasBody f (p.bodySource f) := by
  obtain ⟨signature, blocks, mem, declares⟩ := state.bodies filled
  obtain ⟨g, others, body⟩ := state.made mem
  obtain rfl := Option.some.inj (declares.named.symm.trans others.named)
  rw [body.text]
  exact ⟨signature, mem, declares, body⟩

/-- A program that is loaded is made from a checked text. -/
theorem building_of_load {read : Sexp.Reader} {file text : String}
    (h : Program.loadWith read file text = .ok p) :
    ∃ source, Source.parseWith read file text = .ok source ∧ source.Checked ∧
    p.Building source.items [] ∧
      source.items.filterMap Source.Item.definedName? = Source.definedNames (read text) := by
  obtain ⟨source, parsed, rfl⟩ := source_of_load h
  obtain ⟨checked, defined⟩ := Source.checked_of_parse parsed
  exact ⟨source, parsed, checked,
    building_ofSource checked (Source.complete_of_parse parsed), defined⟩

theorem faithful_of_load {read : Sexp.Reader} {file text : String}
    (h : Program.loadWith read file text = .ok p) : p.Faithful (read text) := by
  obtain ⟨source, _, checked, state, defined⟩ := building_of_load h
  refine ⟨state.sane, state.once, state.finished.shape, fun f => ?_, fun {f b} hb => ?_,
    fun f hf => ?_⟩
  · by_cases filled : (p.function f).blocks = []
    · refine ⟨[], ?_⟩
      rw [bodySource, filled]
      exact ⟨List.nodup_nil, List.nodup_nil, List.forall_mem_nil _, List.forall_mem_nil _,
        List.forall_mem_nil _, List.forall_mem_nil _⟩
    · obtain ⟨signature, mem, declares, _⟩ := state.item filled
      rw [declares.text]
      exact ⟨_, checked.items _ mem⟩
  · obtain ⟨_, _, _, body⟩ := state.item (List.ne_nil_of_mem hb)
    exact body.linked b hb
  · rw [← defined, List.mem_filterMap]
    constructor
    · intro filled
      obtain ⟨signature, mem, declares, _⟩ := state.item filled
      refine ⟨_, mem, ?_⟩
      have name : signature.name = (p.function f).name :=
        congrArg Source.Signature.name declares.text.symm
      cases body : p.bodySource f with
      | nil => exact absurd (List.map_eq_nil_iff.mp body) filled
      | cons block blocks => exact congrArg some name
    · rintro ⟨item, mem, named⟩
      cases item with
      | struct _ _ => cases named
      | global _ _ => cases named
      | function signature blocks =>
        obtain ⟨g, declares, body⟩ := state.made mem
        obtain ⟨⟨name, f⟩, registered, rfl⟩ := List.mem_map.mp hf
        obtain ⟨fn, known, same⟩ := state.sane.named.functions registered
        have spelled : signature.name = name := by
          cases blocks with
          | nil => cases named
          | cons block blocks => rw [Option.some.inj named, function_eq known, same]
        have found := Keyed.get?_of_mem state.sane.named.keys registered
        have here : g = f := Option.some.inj (declares.named.symm.trans (spelled ▸ found))
        intro empty
        have text := body.text
        rw [here, bodySource, empty] at text
        subst text
        cases named

end Relock.Program
