import Mathlib.Data.List.Find
import Relock.Proofs.Program.Body
import Relock.Proofs.Program.OfSource

/-!
# Links

The blocks of a body are linked once it is connected. A link changes the successors of one block and
the predecessors of another; what a terminator names, and what a body reads back as, is the same
before and after. So each block gets the blocks that its terminator names as its successors, each
once, in the order in which they are named. `HasBody` says of a function that this is its body, and
`addBody` makes it so.
-/

namespace Relock

namespace Node

/-- A node apart from the control flow. -/
def unlinked : Node → Node
  | .block b => .block { b with successors := [], predecessors := [] }
  | n => n

theorem of_unlinked {n m : Node} (h : n.unlinked = m.unlinked) (other : ∀ b, m ≠ .block b) :
    n = m := by
  cases m with
  | block b => exact absurd rfl (other b)
  | _ =>
    cases n with
    | block b => cases h
    | _ => exact h

theorem of_unlinked_block {n : Node} {b : Block} (h : n.unlinked = (Node.block b).unlinked) :
    ∃ block, n = .block block ∧ block.name = b.name ∧ block.ops = b.ops := by
  cases n with
  | block block =>
    simp only [unlinked, Node.block.injEq, Block.mk.injEq, and_true] at h
    exact ⟨block, rfl, h.1, h.2.2⟩
  | _ => cases h

end Node

namespace Program

variable {p q r : Program} {changing : Nat → Prop} {f : FunctionId}

/-! ## What links leave -/

/-- Only the control flow differs. -/
def Relinked (p q : Program) : Prop := ∀ i, (q.node i).unlinked = (p.node i).unlinked

theorem Relinked.trans (pq : Relinked p q) (qr : Relinked q r) : Relinked p r :=
  fun i => (qr i).trans (pq i)

theorem Relinked.symm (pq : Relinked p q) : Relinked q p := fun i => (pq i).symm

theorem relinked_modifyBlock (p : Program) (b : BlockId) {change : Block → Block}
    (made : ∀ block, (Node.block (change block)).unlinked = (Node.block block).unlinked) :
    Relinked p (p.modifyBlock b change) := by
  intro i
  unfold modifyBlock
  rw [node_modify p _ rfl]
  split
  next =>
    cases p.node i with
    | block block => exact made block
    | _ => rfl
  next => rfl

theorem relinked_link (p : Program) (src dst : BlockId) : Relinked p (p.link src dst) := by
  unfold link
  split
  next => exact fun _ => rfl
  next =>
    refine (relinked_modifyBlock p src ?_).trans (relinked_modifyBlock _ dst ?_)
    · exact fun _ => rfl
    · exact fun _ => rfl

section Relinked

variable (same : Relinked p q)
include same

theorem Relinked.node {i : Nat} {n : Node} (h : p.node i = n) (other : ∀ b, n ≠ .block b) :
    q.node i = n := by
  subst h
  exact Node.of_unlinked (same i) other

theorem Relinked.function? (g : FunctionId) : q.function? g = p.function? g := by
  refine Option.ext fun fn => ?_
  rw [function?_eq_some, function?_eq_some]
  exact ⟨fun h => same.symm.node h nofun, fun h => same.node h nofun⟩

theorem Relinked.op? (o : OpId) : q.op? o = p.op? o := by
  refine Option.ext fun op => ?_
  rw [op?_eq_some, op?_eq_some]
  exact ⟨fun h => same.symm.node h nofun, fun h => same.node h nofun⟩

theorem Relinked.value? (v : ValueId) : q.value? v = p.value? v := by
  refine Option.ext fun x => ?_
  rw [value?_eq_some, value?_eq_some]
  exact ⟨fun h => same.symm.node h nofun, fun h => same.node h nofun⟩

theorem Relinked.block? {b : BlockId} {block : Block} (known : p.block? b = some block) :
    ∃ block', q.block? b = some block' ∧ block'.name = block.name ∧ block'.ops = block.ops := by
  have node := same b
  rw [block?_eq_some.mp known] at node
  obtain ⟨block', found, made⟩ := Node.of_unlinked_block node
  exact ⟨block', block?_eq_some.mpr found, made⟩

theorem Relinked.block (b : BlockId) : (q.block b).name = (p.block b).name ∧
    (q.block b).ops = (p.block b).ops := by
  cases known : p.block? b with
  | some block =>
    obtain ⟨block', known', made⟩ := same.block? known
    rw [block_eq known, block_eq known']
    exact made
  | none =>
    have none' : q.block? b = none := by
      cases known' : q.block? b with
      | none => rfl
      | some block' =>
        obtain ⟨block, there, _⟩ := same.symm.block? known'
        cases known.symm.trans there
    rw [block_eq_default known, block_eq_default none']
    exact ⟨rfl, rfl⟩

end Relinked

/-- The blocks that the terminator of a block names, in order. -/
def targetsOf (p : Program) (f : FunctionId) (b : BlockId) : List BlockId :=
  match p.terminator? b with
  | none => []
  | some o => (p.op o).targets.filterMap (p.blockNamed? f)

theorem linkBlock_eq (f : FunctionId) (p : Program) (b : BlockId) :
    linkBlock f p b = (p.targetsOf f b).foldl (fun p dst => p.link b dst) p := by
  unfold linkBlock targetsOf
  cases p.terminator? b <;> rfl

theorem relinked_linkBlocks (row : List BlockId) (p : Program) :
    Relinked p (row.foldl (linkBlock f) p) := by
  induction row generalizing p with
  | nil => exact fun _ => rfl
  | cons b row ih =>
    refine Relinked.trans ?_ (ih _)
    rw [linkBlock_eq]
    generalize p.targetsOf f b = targets
    induction targets generalizing p with
    | nil => exact fun _ => rfl
    | cons dst targets ih => exact (relinked_link p b dst).trans (ih _)

/-- What the terminator of a block names depends on the blocks of its function alone. -/
theorem targetsOf_congr {g : FunctionId} (blocks : (q.function g).blocks = (p.function g).blocks)
    (block : ∀ b ∈ (p.function g).blocks, (q.block b).name = (p.block b).name ∧
      (q.block b).ops = (p.block b).ops)
    (op : ∀ b ∈ (p.function g).blocks, ∀ o ∈ (p.block b).ops, q.op o = p.op o) {b : BlockId}
    (held : b ∈ (p.function g).blocks) : q.targetsOf g b = p.targetsOf g b := by
  have named : q.blockNamed? g = p.blockNamed? g := by
    funext label
    rw [blockNamed?, blockNamed?, blocks]
    refine List.find?_congr fun c hc => ?_
    rw [(block c (List.mem_reverse.mp hc)).1]
  unfold Program.targetsOf terminator?
  rw [(block b held).2, named]
  cases last : (p.block b).ops.getLast? with
  | none => rfl
  | some o =>
    have same : q.op o = p.op o := op b held o (List.mem_of_getLast? last)
    cases terminator : (p.op o).kind.isTerminator with
    | true => simp only [Option.filter_some, same, terminator, if_true]
    | false => simp only [Option.filter_some, same, terminator, Bool.false_eq_true, if_false]

section Relinked

variable (same : Relinked p q)
include same

theorem Relinked.value (v : ValueId) : q.value v = p.value v := by
  rw [Program.value, same.value?, Program.value]

theorem Relinked.targetsOf {f : FunctionId} {b : BlockId} (held : b ∈ (p.function f).blocks) :
    q.targetsOf f b = p.targetsOf f b := by
  refine targetsOf_congr ?_ (fun b _ => same.block b) (fun _ _ o _ => ?_) held
  · rw [Program.function, same.function?, Program.function]
  · rw [Program.op, same.op?, Program.op]

theorem Relinked.blockSource (b : BlockId) : q.blockSource b = p.blockSource b := by
  have operand : q.operandSource = p.operandSource := by
    funext v
    simp only [operandSource, same.value]
  have typed : q.typedName = p.typedName := by
    funext v
    simp only [typedName, same.value]
  have callee : q.calleeSource = p.calleeSource := by
    funext c
    cases c <;> simp only [calleeSource, same.value]
  have op : q.opSource = p.opSource := by
    funext o
    simp only [opSource, readOp, Program.op, same.op?, operand, typed, callee]
  simp only [Program.blockSource, (same.block b).1, (same.block b).2, op]

theorem Relinked.once (once : p.Once) : q.Once := by
  intro v is
  rw [literal, same.value] at is
  rw [same.value]
  exact once v is

end Relinked

/-! ## The successors of a block -/

theorem eraseDups_concat (row : List Nat) (a : Nat) :
    (row ++ [a]).eraseDups = if a ∈ row then row.eraseDups else row.eraseDups ++ [a] := by
  rw [List.eraseDups_append]
  split
  next old =>
    have nothing : [a].removeAll row = [] := by simp [List.removeAll, old]
    rw [nothing, List.eraseDups_nil, List.append_nil]
  next new =>
    have all : [a].removeAll row = [a] := by simp [List.removeAll, new]
    rw [all]
    rfl

theorem Keeps.blockKnown (keeps : Keeps changing p q) {b : BlockId}
    (h : ∃ block, p.block? b = some block) :
    ∃ block, q.block? b = some block := by
  obtain ⟨block, known⟩ := h
  obtain ⟨block', known', _⟩ := keeps.block? known
  exact ⟨block', known'⟩

/-- Links from one block. -/
structure LinkedTo (b : BlockId) (targets : List BlockId) (p q : Program) : Prop where
  relinked : Relinked p q
  keeps : Keeps (fun i => i = b ∨ i ∈ targets) p q
  sane : q.Sane
  others : ∀ {a}, a ≠ b → (q.block a).successors = (p.block a).successors

/-- A block that has been linked to some blocks is linked to further ones. -/
theorem linkedTo_foldl {b : BlockId} (done targets : List BlockId) (sane : p.Sane)
    (known : ∃ block, p.block? b = some block)
    (inside : ∀ dst ∈ targets, ∃ block, p.block? dst = some block)
    (before : (p.block b).successors = done.eraseDups) :
    LinkedTo b targets p (targets.foldl (fun p dst => p.link b dst) p) ∧
      ((targets.foldl (fun p dst => p.link b dst) p).block b).successors =
        (done ++ targets).eraseDups := by
  induction targets generalizing p done with
  | nil =>
    rw [List.append_nil]
    exact ⟨⟨fun _ => rfl, .refl _ p, sane, fun _ => rfl⟩, before⟩
  | cons dst targets ih =>
    obtain ⟨source, known⟩ := known
    obtain ⟨⟨target, there⟩, inside⟩ := List.forall_mem_cons.mp inside
    have keeps : Keeps (fun i => i = b ∨ i ∈ dst :: targets) p (p.link b dst) :=
      keeps_link p (.inl rfl) (.inr List.mem_cons_self)
    have one : ((p.link b dst).block b).successors = (done ++ [dst]).eraseDups := by
      rw [successors_link known, before, eraseDups_concat]
      by_cases old : dst ∈ done
      · rw [if_pos old, if_neg fun h => h.2 (List.mem_eraseDups.mpr old)]
      · rw [if_neg old, if_pos ⟨rfl, mt List.mem_eraseDups.mp old⟩]
    obtain ⟨rest, final⟩ :=
      ih (done ++ [dst]) (sane.link known there) (keeps.blockKnown ⟨source, known⟩)
      (fun c hc => keeps.blockKnown (inside c hc)) one
    rw [List.append_assoc] at final
    refine ⟨⟨(relinked_link p b dst).trans rest.relinked, keeps.trans (rest.keeps.weaken ?_),
      rest.sane, ?_⟩, final⟩
    · exact fun h => h.imp_right (List.mem_cons_of_mem _)
    · intro a other
      rw [List.foldl_cons, rest.others other, successors_link known, if_neg fun h => other h.1]

theorem mem_targetsOf {b dst : BlockId} (h : dst ∈ p.targetsOf f b) :
    dst ∈ (p.function f).blocks := by
  unfold targetsOf at h
  split at h
  next => cases h
  next =>
    obtain ⟨label, _, named⟩ := List.mem_filterMap.mp h
    exact mem_blocks_of_blockNamed? named

/-- Every block of a row gets the successors that its terminator names. -/
theorem linkedTo_linkBlocks {bs : List BlockId} (row : List BlockId) (sane : p.Sane)
    (held : (p.function f).blocks = bs) (known : ∀ b ∈ bs, ∃ block, p.block? b = some block)
    (sub : row ⊆ bs) (nodup : row.Nodup) (unlinked : ∀ b ∈ row, (p.block b).successors = []) :
    Keeps (· ∈ bs) p (row.foldl (linkBlock f) p) ∧ (row.foldl (linkBlock f) p).Sane ∧
      (∀ b ∈ row, ((row.foldl (linkBlock f) p).block b).successors = (p.targetsOf f b).eraseDups) ∧
      ∀ {b}, b ∉ row → ((row.foldl (linkBlock f) p).block b).successors =
        (p.block b).successors := by
  induction row generalizing p with
  | nil => exact ⟨.refl _ p, sane, nofun, fun _ => rfl⟩
  | cons b row ih =>
    obtain ⟨once, nodup⟩ := List.nodup_cons.mp nodup
    obtain ⟨start, unlinked⟩ := List.forall_mem_cons.mp unlinked
    obtain ⟨inside, sub⟩ := List.cons_subset.mp sub
    have targets : ∀ dst ∈ p.targetsOf f b, dst ∈ bs := fun dst h => held ▸ mem_targetsOf h
    obtain ⟨one, successors⟩ := linkedTo_foldl [] (p.targetsOf f b) sane (known b inside)
      (fun dst h => known dst (targets dst h)) start
    rw [← linkBlock_eq] at one successors
    rw [List.nil_append] at successors
    have keeps : Keeps (· ∈ bs) p (linkBlock f p b) := one.keeps.weaken fun {i} h => by
      rcases h with rfl | h
      · exact inside
      · exact targets i h
    have other {a : BlockId} (h : a ∈ row) : a ≠ b := fun same => once (same ▸ h)
    obtain ⟨rest, final, all, others⟩ := ih one.sane
      (by rw [Program.function, one.relinked.function?]; exact held)
      (fun a ha => keeps.blockKnown (known a ha)) sub nodup fun a ha =>
        (one.others (other ha)).trans (unlinked a ha)
    refine ⟨keeps.trans rest, final, List.forall_mem_cons.mpr ⟨?_, fun a ha => ?_⟩, ?_⟩
    · exact (others once).trans successors
    · rw [List.foldl_cons, all a ha, one.relinked.targetsOf (held ▸ sub ha)]
    · intro a absent
      obtain ⟨other, absent⟩ := not_or.mp (mt List.mem_cons.mpr absent)
      exact (others absent).trans (one.others other)

/-! ## Bodies -/

/-- The body of a function reads back as a text, its blocks are linked as it says, and names stand
for what it gives them to. -/
structure HasBody (p : Program) (f : FunctionId) (blocks : List Source.Block) : Prop where
  text : p.bodySource f = blocks
  linked : ∀ b ∈ (p.function f).blocks, (p.block b).successors = (p.targetsOf f b).eraseDups
  resolved : ∀ b ∈ (p.function f).blocks, ∀ o ∈ (p.block b).ops, ∀ v ∈ (p.op o).operands,
    (p.value v).Resolved ((p.signatureSource f).params.map (·.1)) (Source.resultNames blocks)

/-- What making a body does. -/
structure BodyMade (p : Program) (f : FunctionId) (blocks : List Source.Block)
    (q : Program) : Prop where
  keeps : Keeps (fun i => i = f ∨ p.nodes.size ≤ i) p q
  sane : q.Sane
  once : q.Once
  signature : q.signatureSource f = p.signatureSource f
  body : q.HasBody f blocks

theorem bodyMade_addBody (sane : p.Sane) (once : p.Once) {fn : Function}
    (known : p.function? f = some fn) (declared : fn.blocks = []) {blocks : List Source.Block}
    (bound : ∀ block ∈ blocks, ∀ op ∈ block.ops, ∀ name ∈ op.names,
      name ∈ (p.signatureSource f).params.map (·.1) ∨ name ∈ Source.resultNames blocks ∨
      (p.globals.get? name).isSome) :
    BodyMade p f blocks (p.addBody f blocks) := by
  obtain ⟨bs, laid⟩ := (laid_start sane.fitted known declared).addBlocks sane.fitted blocks
  rw [List.nil_append] at laid
  have connected := laid.connected sane once bound
  let layout := blocks.foldl (Layout.addBlock f)
    { program := p, scope := ((p.function f).params.map fun v => ((p.value v).name, v)).reverse,
      placed := [] }
  let q := layout.placed.foldl (wireOp layout.scope) layout.program
  have made : p.addBody f blocks = (q.function f).blocks.foldl (linkBlock f) q := rfl
  change Connected p f q bs blocks at connected
  rw [made]
  generalize q = q at connected
  obtain ⟨fn', there, function⟩ := connected.held
  obtain rfl := Option.some.inj (known.symm.trans there)
  have held : (q.function f).blocks = bs := by rw [function_eq function]
  have blocksKnown : ∀ b ∈ bs, ∃ block, q.block? b = some block := by
    intro b hb
    obtain ⟨block, there, _⟩ := Option.map_eq_some_iff.mp (connected.unlinked b hb).1
    exact ⟨block, there⟩
  obtain ⟨keeps, final, linked, _⟩ := linkedTo_linkBlocks bs connected.sane held blocksKnown
    (List.Subset.refl bs) connected.nodup fun b hb => (connected.unlinked b hb).2
  have relinked : Relinked q (bs.foldl (linkBlock f) q) := relinked_linkBlocks bs q
  rw [held]
  have held' : ((bs.foldl (linkBlock f) q).function f).blocks = bs := by
    rw [Program.function, relinked.function?, ← Program.function, held]
  have whole : Keeps (fun i => i = f ∨ p.nodes.size ≤ i) p (bs.foldl (linkBlock f) q) :=
    connected.keeps.trans (keeps.weaken fun h => .inr (connected.young _ h))
  have signature : (bs.foldl (linkBlock f) q).signatureSource f = p.signatureSource f :=
    whole.signatureSource sane.fitted known ((relinked.function? f).trans function)
  refine ⟨whole, final, relinked.once connected.once, signature, ?_, ?_, ?_⟩
  · rw [bodySource, held', ← connected.text]
    exact List.map_congr_left fun b _ => relinked.blockSource b
  · intro b hb
    rw [held'] at hb
    rw [linked b hb, relinked.targetsOf (held ▸ hb)]
  · intro b hb o ho v hv
    rw [held'] at hb
    rw [(relinked.block b).2] at ho
    rw [Program.op, relinked.op?, ← Program.op] at hv
    rw [relinked.value, signature]
    exact connected.resolved b hb o ho v hv

end Program
end Relock
