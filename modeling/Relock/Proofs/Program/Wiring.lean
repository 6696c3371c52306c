import Relock.Proofs.Program.Fits

/-!
# Edges from both sides

Operands and uses are two views of one kind of edge, successors and predecessors of another. `Wired`
says that the views agree and that nothing is listed twice. Two builder operations make edges,
`attachOne` and `link`, and each of them writes both views; the others are `Quiet`.
-/

namespace Relock
namespace Program

variable {p q : Program} {changing : Nat → Prop}

/-- Each edge is seen from both of its ends, once from each. -/
structure Wired (p : Program) : Prop where
  uses : ∀ {v o i}, ⟨o, i⟩ ∈ (p.value v).uses ↔ (p.op o).operands[i]? = some v
  uses_nodup : ∀ v, (p.value v).uses.Nodup
  edges : ∀ {a b}, b ∈ (p.block a).successors ↔ a ∈ (p.block b).predecessors
  predecessors_nodup : ∀ b, (p.block b).predecessors.Nodup

theorem Wired.of_wiring (wired : p.Wired) (wiring : ∀ i, (q.node i).wiring = (p.node i).wiring) :
    q.Wired := by
  have uses (v : ValueId) : (q.value v).uses = (p.value v).uses := by rw [uses_eq, uses_eq, wiring]
  have operands (o : OpId) : (q.op o).operands = (p.op o).operands := by
    rw [operands_eq, operands_eq, wiring]
  have successors (b : BlockId) : (q.block b).successors = (p.block b).successors := by
    rw [successors_eq, successors_eq, wiring]
  have predecessors (b : BlockId) : (q.block b).predecessors = (p.block b).predecessors := by
    rw [predecessors_eq, predecessors_eq, wiring]
  refine ⟨?_, fun v => ?_, ?_, fun b => ?_⟩
  · intro v o i
    rw [uses, operands]
    exact wired.uses
  · rw [uses]
    exact wired.uses_nodup v
  · intro a b
    rw [successors, predecessors]
    exact wired.edges
  · rw [predecessors]
    exact wired.predecessors_nodup b

/-- What building keeps in order: references, names and edges. -/
structure Sane (p : Program) : Prop where
  fitted : p.Fitted
  named : p.Named
  wired : p.Wired

theorem Quiet.sane (quiet : Quiet changing p q) (sane : p.Sane) : q.Sane :=
  ⟨quiet.fitted sane.fitted, quiet.named sane.named, sane.wired.of_wiring quiet.wiring⟩

theorem sane_empty (name : String) : (empty name).Sane := by
  have node (i : Nat) : (empty name).node i = .vacant := by
    cases i with
    | zero => rfl
    | succ i => rfl
  have nothing (i : Nat) : ((empty name).node i).wiring = {} := by rw [node]; rfl
  refine ⟨fun i => by rw [node]; trivial, ⟨nofun, List.nodup_nil, nofun, List.nodup_nil⟩, ?_,
    fun v => ?_, ?_, fun b => ?_⟩
  · intro v o i
    rw [uses_eq, operands_eq, nothing, nothing]
    simp
  · rw [uses_eq, nothing]
    exact List.nodup_nil
  · intro a b
    rw [successors_eq, predecessors_eq, nothing, nothing]
    simp
  · rw [predecessors_eq, nothing]
    exact List.nodup_nil

/-! ## Operands -/

theorem keeps_attachOne (p : Program) {o : OpId} (here : changing o) (v : ValueId) :
    Keeps changing p (p.attachOne o v) := by
  refine Keeps.trans (keeps_modifyOp here ?_) (keeps_modifyValue ?_)
  · exact fun _ => ⟨rfl, rfl⟩
  · exact fun _ => ⟨rfl, rfl, rfl⟩

theorem op?_attachOne (p : Program) (o : OpId) (v : ValueId) (i : OpId) :
    (p.attachOne o v).op? i =
      if i = o then (p.op? i).map fun op => { op with operands := op.operands ++ [v] }
      else p.op? i := by
  rw [attachOne, op?_modifyValue, op?_modifyOp]

theorem value?_attachOne (p : Program) (o : OpId) (v w : ValueId) :
    (p.attachOne o v).value? w = if w = v
      then (p.value? w).map fun x => { x with uses := x.uses ++ [⟨o, (p.op o).operands.length⟩] }
      else p.value? w := by
  rw [attachOne, value?_modifyValue, value?_modifyOp]

theorem value_attachOne {v : ValueId} {x : Value} (known : p.value? v = some x) (o : OpId)
    (w : ValueId) :
    (p.attachOne o v).value w =
      if w = v then { p.value w with uses := (p.value w).uses ++ [⟨o, (p.op o).operands.length⟩] }
      else p.value w := by
  simp only [Program.value, value?_attachOne]
  split
  next here => rw [here, known]; rfl
  next => rfl

theorem block_attachOne (p : Program) (o : OpId) (v : ValueId) (b : BlockId) :
    (p.attachOne o v).block b = p.block b := by
  simp only [attachOne, block, block?_modifyValue, block?_modifyOp]

/-- The place at the end of a row and the others. -/
theorem getElem?_concat_eq_some {α : Type} {row : List α} {a b : α} {i : Nat} :
    (row ++ [a])[i]? = some b ↔ row[i]? = some b ∨ (i = row.length ∧ a = b) := by
  rcases Nat.lt_trichotomy i row.length with less | rfl | more
  · rw [List.getElem?_append_left less]
    exact ⟨.inl, fun h => h.elim id fun h => absurd h.1 (Nat.ne_of_lt less)⟩
  · rw [List.getElem?_concat_length, List.getElem?_eq_none (Nat.le_refl _)]
    simp
  · rw [List.getElem?_eq_none (by simp; omega), List.getElem?_eq_none (by omega)]
    simp
    omega

theorem Wired.attachOne (wired : p.Wired) {o : OpId} {op : Operation} (placed : p.op? o = some op)
    {v : ValueId} {x : Value} (known : p.value? v = some x) : (p.attachOne o v).Wired := by
  have operands (i : OpId) : ((p.attachOne o v).op i).operands =
      if i = o then (p.op i).operands ++ [v] else (p.op i).operands := by
    simp only [Program.op, op?_attachOne]
    split
    next here => rw [here, placed]; rfl
    next => rfl
  have uses (w : ValueId) : ((p.attachOne o v).value w).uses =
      if w = v then (p.value w).uses ++ [⟨o, (p.op o).operands.length⟩] else (p.value w).uses := by
    rw [value_attachOne known]
    split <;> rfl
  -- the new place is past the operands that there were
  have fresh (w : ValueId) : ⟨o, (p.op o).operands.length⟩ ∉ (p.value w).uses := by
    rw [wired.uses, List.getElem?_eq_none (Nat.le_refl _)]
    exact (Option.some_ne_none w).symm
  refine ⟨?_, fun w => ?_, ?_, fun b => ?_⟩
  · intro w i k
    have listed : (⟨i, k⟩ : Use) ∈ ((p.attachOne o v).value w).uses ↔
        ⟨i, k⟩ ∈ (p.value w).uses ∨ (w = v ∧ i = o ∧ k = (p.op o).operands.length) := by
      rw [uses]
      split
      next same => simp [same]
      next other => simp [other]
    rw [listed, wired.uses, operands]
    split
    next same =>
      rw [getElem?_concat_eq_some, same]
      simp only [true_and, and_comm, eq_comm]
    next other => simp [other]
  · rw [uses]
    split
    next =>
      refine List.nodup_append.mpr ⟨wired.uses_nodup w, by simp, ?_⟩
      intro a ha b hb same
      rw [same, List.mem_singleton.mp hb] at ha
      exact fresh w ha
    next => exact wired.uses_nodup w
  · intro a b
    rw [block_attachOne, block_attachOne]
    exact wired.edges
  · rw [block_attachOne]
    exact wired.predecessors_nodup b

theorem Fitted.modifyValue (fitted : p.Fitted) {v : ValueId} {change : Value → Value}
    (made : ∀ x, (change x).name = x.name ∧ (change x).type = x.type ∧
      (change x).origin = x.origin) :
    (p.modifyValue v change).Fitted := by
  have keeps : Keeps (fun _ => True) p (p.modifyValue v change) := keeps_modifyValue made
  refine fitted.modify keeps rfl ?_
  have old := (fitted v).mono keeps
  cases found : p.node v with
  | value x => trivial
  | _ =>
    rw [found] at old
    exact old

section Attach

variable {o : OpId} {op : Operation} {b : BlockId} {f : FunctionId}

theorem Sane.attachOne (sane : p.Sane) (placed : p.op? o = some op) (held : op.block = some b)
    (owner : p.ownerOf? b = some f) {v : ValueId} (usable : p.Usable f v) :
    (p.attachOne o v).Sane := by
  obtain ⟨x, known⟩ := usable.value?
  have keeps : Keeps (fun _ => True) p (p.attachOne o v) := keeps_attachOne p trivial v
  refine ⟨?_, sane.named.mono keeps rfl rfl, sane.wired.attachOne placed known⟩
  have extended : (p.modifyOp o fun op => { op with operands := op.operands ++ [v] }).Fitted := by
    refine sane.fitted.modifyOp (fun _ => ⟨rfl, rfl⟩) fun found held' owner' fits => ?_
    cases (op?_eq_some.mp placed).symm.trans found
    obtain rfl := Option.some.inj (held.symm.trans held')
    obtain rfl := Option.some.inj (owner.symm.trans owner')
    refine ⟨fits.result, fun w hw => ?_, fits.callee⟩
    rcases List.mem_append.mp hw with old | new
    · exact fits.operands w old
    · rw [List.mem_singleton.mp new]
      exact usable
  exact extended.modifyValue fun _ => ⟨rfl, rfl, rfl⟩

theorem keeps_attach (here : changing o) (operands : List ValueId) (p : Program) :
    Keeps changing p (p.attach o operands) := by
  induction operands generalizing p with
  | nil => exact .refl changing p
  | cons v operands ih => exact (keeps_attachOne p here v).trans (ih (p.attachOne o v))

/-- Operands that the operation may use are attached in their order. -/
theorem Sane.attach (operands : List ValueId) (sane : p.Sane) (placed : p.op? o = some op)
    (held : op.block = some b) (owner : p.ownerOf? b = some f)
    (usable : ∀ v ∈ operands, p.Usable f v) :
    (p.attach o operands).Sane ∧
    (p.attach o operands).op? o = some { op with operands := op.operands ++ operands } := by
  induction operands generalizing p op with
  | nil =>
    rw [List.append_nil]
    exact ⟨sane, placed⟩
  | cons v operands ih =>
    have keeps : Keeps (fun _ => True) p (p.attachOne o v) := keeps_attachOne p trivial v
    have next : (p.attachOne o v).op? o = some { op with operands := op.operands ++ [v] } := by
      rw [op?_attachOne, if_pos rfl, placed]
      rfl
    obtain ⟨attached, final⟩ :=
      ih (sane.attachOne placed held owner (usable v List.mem_cons_self)) next held
      (keeps.ownerOf? owner) fun w hw => keeps.usable (usable w (List.mem_cons_of_mem _ hw))
    refine ⟨attached, final.trans ?_⟩
    simp only [List.append_assoc, List.singleton_append]

end Attach

/-! ## The control flow -/

theorem keeps_link (p : Program) {src dst : BlockId} (fromHere : changing src)
    (toHere : changing dst) :
    Keeps changing p (p.link src dst) := by
  unfold link
  split
  next => exact .refl changing p
  next =>
    refine Keeps.trans (keeps_modifyBlock fromHere ?_) (keeps_modifyBlock toHere ?_)
    · exact fun _ => ⟨rfl, rfl⟩
    · exact fun _ => ⟨rfl, rfl⟩

/-- A link adds a successor that is not there yet. -/
theorem successors_link {src dst : BlockId} {source : Block} (known : p.block? src = some source)
    (b : BlockId) :
    ((p.link src dst).block b).successors =
      if b = src ∧ dst ∉ (p.block src).successors then (p.block b).successors ++ [dst]
      else (p.block b).successors := by
  by_cases old : dst ∈ (p.block src).successors
  · rw [if_neg fun h => h.2 old, Program.link, if_pos old]
  · by_cases here : b = src
    · rw [if_pos ⟨here, old⟩]
      simp only [Program.block, block?_link old, here, known, Option.map_some,
        Option.getD_some, if_true]
    · rw [if_neg fun h => here h.1]
      simp only [Program.block, block?_link old]
      cases p.block? b <;> simp [here]

theorem Wired.link (wired : p.Wired) {src dst : BlockId} {source target : Block}
    (known : p.block? src = some source) (known' : p.block? dst = some target) :
    (p.link src dst).Wired := by
  by_cases old : dst ∈ (p.block src).successors
  · simp only [Program.link, if_pos old]
    exact wired
  · have successors (b : BlockId) : ((p.link src dst).block b).successors =
        if b = src then (p.block b).successors ++ [dst] else (p.block b).successors := by
      simp only [successors_link known, old, not_false_eq_true, and_true]
    have predecessors (b : BlockId) : ((p.link src dst).block b).predecessors =
        if b = dst then (p.block b).predecessors ++ [src] else (p.block b).predecessors := by
      simp only [Program.block, block?_link old]
      by_cases here : b = dst
      · rw [here, known']
        simp
      · cases p.block? b <;> simp [here]
    have value (v : ValueId) : (p.link src dst).value v = p.value v := by
      simp only [Program.value, Program.link, if_neg old, value?_modifyBlock]
    have op (o : OpId) : (p.link src dst).op o = p.op o := by
      simp only [Program.op, Program.link, if_neg old, op?_modifyBlock]
    refine ⟨?_, fun v => ?_, ?_, fun b => ?_⟩
    · intro v o i
      rw [value, op]
      exact wired.uses
    · rw [value]
      exact wired.uses_nodup v
    · intro a b
      have forward : b ∈ ((p.link src dst).block a).successors ↔ b ∈ (p.block a).successors ∨
          (a = src ∧ b = dst) := by
        rw [successors]
        split
        next here => simp [here]
        next other => simp [other]
      have backward : a ∈ ((p.link src dst).block b).predecessors ↔ a ∈ (p.block b).predecessors ∨
          (a = src ∧ b = dst) := by
        rw [predecessors]
        split
        next here => simp [here]
        next other => simp [other]
      rw [forward, backward, wired.edges]
    · rw [predecessors]
      split
      next here =>
        refine List.nodup_append.mpr ⟨wired.predecessors_nodup b, by simp, ?_⟩
        intro a ha c hc same
        rw [same, List.mem_singleton.mp hc, here] at ha
        exact old (wired.edges.mpr ha)
      next => exact wired.predecessors_nodup b

theorem Sane.link (sane : p.Sane) {src dst : BlockId} {source target : Block}
    (known : p.block? src = some source) (known' : p.block? dst = some target) :
    (p.link src dst).Sane := by
  have keeps : Keeps (fun _ => True) p (p.link src dst) := keeps_link p trivial trivial
  have fitted : (p.link src dst).Fitted := by
    unfold Program.link
    split
    next => exact sane.fitted
    next =>
      refine Fitted.modifyBlock (Fitted.modifyBlock sane.fitted ?_) ?_
      · exact fun _ => ⟨rfl, rfl⟩
      · exact fun _ => ⟨rfl, rfl⟩
  have names : (p.link src dst).functions = p.functions ∧ (p.link src dst).globals = p.globals := by
    unfold Program.link
    split <;> exact ⟨rfl, rfl⟩
  exact ⟨fitted, sane.named.mono keeps names.1 names.2, sane.wired.link known known'⟩

end Program
end Relock
