import Relock.Proofs.Program.WellFormed

/-!
# Where control leaves a block

Only the last operation of a block is asked whether it is a terminator, and only its labels are
looked up. So control leaves a block at its end, to the blocks that its last operation names; but a
terminator may also stand further up, and its labels may name anything. A program has such an
operation exactly if its text does, and in one that has none every label is the label of a
successor.
-/

namespace Relock

/-- No operation of a text that may end a block stands before the end of one. -/
def Source.LeavesAtEnd (source : Source) : Prop :=
  ∀ {signature blocks}, .function signature blocks ∈ source.items →
    ∀ block ∈ blocks, ∀ op ∈ block.ops.dropLast, op.kind.isTerminator = false

namespace Program

variable {p : Program} {f : FunctionId} {b : BlockId}

/-- No operation that may end the block stands before its end. -/
def LeavesAtEnd (p : Program) (b : BlockId) : Prop :=
  ∀ o ∈ (p.block b).ops.dropLast, (p.op o).kind.isTerminator = false

instance (p : Program) (b : BlockId) : Decidable (p.LeavesAtEnd b) :=
  inferInstanceAs (Decidable (∀ o ∈ (p.block b).ops.dropLast, (p.op o).kind.isTerminator = false))

/-- The labels of an operation name blocks of the function that its block leads to. -/
def LabelsLead (p : Program) (f : FunctionId) (b : BlockId) (o : OpId) : Prop :=
  ∀ label ∈ (p.op o).targets, ∃ t ∈ (p.block b).successors, p.blockNamed? f label = some t

instance (p : Program) (f : FunctionId) (b : BlockId) (o : OpId) : Decidable (p.LabelsLead f b o) :=
  inferInstanceAs (Decidable (∀ label ∈ (p.op o).targets, ∃ t ∈ (p.block b).successors,
    p.blockNamed? f label = some t))

/-- A block leads where its last operation says, and operations that cannot end a block have no
labels. -/
structure LedByLast (p : Program) (f : FunctionId) (b : BlockId) (last : OpId) : Prop where
  ends : (p.block b).ops.getLast? = some last
  terminator : (p.op last).kind.isTerminator = true
  labels : p.LabelsLead f b last
  successors : ∀ t ∈ (p.block b).successors, ∃ label ∈ (p.op last).targets,
    p.blockNamed? f label = some t
  others : ∀ o ∈ (p.block b).ops, (p.op o).kind.isTerminator = false → (p.op o).targets = []

theorem Faithful.ledByLast {form : Except String Sexp} (faithful : p.Faithful form)
    (hb : b ∈ (p.function f).blocks) :
    ∃ last, p.LedByLast f b last := by
  obtain ⟨o, last, terminator, ends, targets⟩ := faithful.last hb
  have successor {t : BlockId} : t ∈ (p.block b).successors ↔
      ∃ label ∈ (p.op o).targets, p.blockNamed? f label = some t := by
    rw [faithful.linked hb, List.mem_eraseDups, targetsOf, ends]
    exact List.mem_filterMap
  obtain ⟨globals, checked⟩ := faithful.checked f
  refine ⟨o, last, terminator, fun label h => ?_, fun t => successor.mp, fun o ho kind => ?_⟩
  · obtain ⟨t, named⟩ := targets label h
    exact ⟨t, successor.mpr ⟨label, h, named⟩, named⟩
  · exact checked.targets (p.blockSource b) (List.mem_map_of_mem hb) (p.opSource o)
      (List.mem_map_of_mem ho) kind

/-- In a block that control leaves only at its end, every label is that of a successor. -/
theorem LedByLast.labelsLead {last : OpId} (led : p.LedByLast f b last) (leaves : p.LeavesAtEnd b) :
    ∀ o ∈ (p.block b).ops, p.LabelsLead f b o := by
  intro o ho
  have split : (p.block b).ops = (p.block b).ops.dropLast ++ [last] :=
    (List.dropLast_append_getLast? last led.ends).symm
  rw [split] at ho
  rcases List.mem_append.mp ho with inner | here
  · intro label h
    rw [led.others o (List.dropLast_subset _ inner) (leaves o inner)] at h
    cases h
  · rw [List.mem_singleton.mp here]
    exact led.labels

/-- A block and what it reads back as. -/
theorem leavesAtEnd_iff : p.LeavesAtEnd b ↔
    ∀ op ∈ (p.blockSource b).ops.dropLast, op.kind.isTerminator = false := by
  rw [LeavesAtEnd, blockSource, ← List.map_dropLast, List.forall_mem_map]
  exact Iff.rfl

theorem Building.leavesAtEnd_iff {source : Source} (state : p.Building source.items []) :
    source.LeavesAtEnd ↔ ∀ f ∈ p.functionIds, ∀ b ∈ (p.function f).blocks, p.LeavesAtEnd b := by
  constructor
  · intro leaves f _ b hb
    obtain ⟨signature, mem, _⟩ := state.item (List.ne_nil_of_mem hb)
    exact Program.leavesAtEnd_iff.mpr (leaves mem (p.blockSource b) (List.mem_map_of_mem hb))
  · intro leaves signature blocks mem block hb
    obtain ⟨f, declares, body⟩ := state.made mem
    rw [← body.text] at hb
    obtain ⟨b, held, rfl⟩ := List.mem_map.mp hb
    have listed : f ∈ p.functionIds := List.mem_map_of_mem (Keyed.mem_of_get? declares.named)
    exact Program.leavesAtEnd_iff.mp (leaves f listed b held)

end Program

/-- Every block leads where its last operation says. That control leaves no block earlier is a
condition on the text; under it, every label of a program is that of a successor. -/
theorem load_ledByLast {read : Sexp.Reader} {file text : String} {p : Program}
    (h : Program.loadWith read file text = .ok p) :
    (∀ f ∈ p.functionIds, ∀ b ∈ (p.function f).blocks, ∃ last, p.LedByLast f b last) ∧
    ∃ source, Source.parseWith read file text = .ok source ∧
      (source.LeavesAtEnd ↔ ∀ f ∈ p.functionIds, ∀ b ∈ (p.function f).blocks, p.LeavesAtEnd b) ∧
      (source.LeavesAtEnd → ∀ f ∈ p.functionIds, ∀ b ∈ (p.function f).blocks, ∀ o ∈ (p.block b).ops,
        p.LabelsLead f b o) := by
  have faithful := Program.faithful_of_load h
  obtain ⟨source, parsed, _, state, _⟩ := Program.building_of_load h
  refine ⟨fun f _ b hb => faithful.ledByLast hb, source, parsed, state.leavesAtEnd_iff,
    fun leaves f hf b hb => ?_⟩
  obtain ⟨last, led⟩ := faithful.ledByLast hb
  exact led.labelsLead (state.leavesAtEnd_iff.mp leaves f hf b hb)

set_option maxRecDepth 4000 in
theorem load_ledByLast_woven : ∃ p, Program.load "woven" wovenText = .ok p ∧
    (p.op 10).targets = ["b", "b", "a"] ∧
    (p.block 7).successors = [11, 7] ∧ (∃ last, p.LedByLast 2 7 last) ∧ p.LabelsLead 2 7 10 := by
  obtain ⟨p, loaded, checked⟩ : ∃ p, Program.load "woven" wovenText = .ok p ∧
      decide ((p.op 10).targets = ["b", "b", "a"] ∧ (p.block 7).successors = [11, 7] ∧
        2 ∈ p.functionIds ∧
        7 ∈ (p.function 2).blocks ∧ 10 ∈ (p.block 7).ops ∧
        ∀ f ∈ p.functionIds, ∀ b ∈ (p.function f).blocks, p.LeavesAtEnd b) = true :=
    Program.exists_of_load rfl (by decide +kernel)
  obtain ⟨targets, successors, listed, held, inside, leaves⟩ := of_decide_eq_true checked
  obtain ⟨led, source, _, same, lead⟩ := load_ledByLast loaded
  exact ⟨p, loaded, targets, successors, led 2 listed 7 held,
    lead (same.mpr leaves) 2 listed 7 held 10 inside⟩

/-- A branch to a block that is not there, before the end of a block. -/
def earlyText : String := "(module early (function \"f\" (params) (block a (br nowhere) (ret))))"

/-- A text is read although control leaves a block before its end, by a label that names no
block. -/
theorem load_leaves_early : ∃ p, Program.load "early" earlyText = .ok p ∧
    ∃ f ∈ p.functionIds, ∃ b ∈ (p.function f).blocks, ¬ p.LeavesAtEnd b ∧
      ∃ o ∈ (p.block b).ops, ∃ label ∈ (p.op o).targets, p.blockNamed? f label = none ∧
      ¬ p.LabelsLead f b o := by
  obtain ⟨p, loaded, checked⟩ : ∃ p, Program.load "early" earlyText = .ok p ∧
      decide (∃ f ∈ p.functionIds, ∃ b ∈ (p.function f).blocks, ¬ p.LeavesAtEnd b ∧
        ∃ o ∈ (p.block b).ops, ∃ label ∈ (p.op o).targets, p.blockNamed? f label = none ∧
        ¬ p.LabelsLead f b o) = true :=
    Program.exists_of_load rfl (by decide +kernel)
  exact ⟨p, loaded, of_decide_eq_true checked⟩

end Relock
