import Relock.Proofs.Search.Sound

/-!
# Searches end

A search walks each block from its start at most once and enters each function at most once, so that
the blocks it has not walked, the functions it has not entered and the positions it holds bound what
is left to do. `measure` adds them up, a block and a position with one for each of its operations
and one more; every move lowers it. The fuel of a query is never less than the measure at its start,
and so a query that is not cut short has walked everything.
-/

namespace Relock

/-! ## The operations of a program -/

theorem Program.block_ops_length (p : Program) (b : BlockId) :
    (p.block b).ops.length = match p.node b with
      | .block block => block.ops.length
      | _ => 0 := by
  unfold Program.block Program.block?
  cases p.node b <;> rfl

/-- The operations of all blocks, by the numbers of the blocks. -/
theorem Program.opSlots_eq (p : Program) :
    p.opSlots = total ((List.range p.nodes.size).map fun b => (p.block b).ops.length) := by
  have sum := p.foldl_nodes fun node => match node with
    | .block b => b.ops.length
    | _ => 0
  simp only [block_ops_length, ← sum]
  unfold Program.opSlots
  congr 1
  funext n node
  cases node <;> rfl

namespace Search

variable {p : Program} {config : Config} {q : Query}

/-! ## The measure -/

/-- What a position can still take: a move for each operation and one at the end of the block. -/
def positionWeight (position : Position) : Nat := position.rest.length + 1

/-- What a frame can still take, and one move to leave it. -/
def frameWeight (frame : Frame) : Nat :=
  1 + (frame.cursor.map positionWeight).getD 0 + total (frame.pending.map positionWeight)

/-- What a search can still take. -/
def measure (p : Program) (s : Search) : Nat :=
  unseen (fun b => (p.block b).ops.length + 1) (List.range p.nodes.size) s.blocks +
  unseen (fun _ => 1) (List.range p.nodes.size) s.functions +
  total (s.stack.map frameWeight)

theorem frameWeight_of_takes {frame : Frame} {position : Position} {pending : List Position}
    (takes : Takes frame position pending) :
    frameWeight frame = 1 + positionWeight position + total (pending.map positionWeight) := by
  unfold frameWeight
  cases takes with
  | hand hand => simp only [hand, Option.map_some, Option.getD_some]
  | next hand rest =>
    simp only [hand, rest, Option.map_none, Option.getD_none, List.map_cons, total]
    omega

/-- The blocks that a search walks belong to functions that it knows. -/
def Owned (p : Program) (s : Search) : Prop := ∀ b ∈ s.blocks, (p.block b).function ∈ s.functions

/-! ## Every move lowers it -/

/-- The block of a position that a running search holds belongs to a known function. -/
theorem Sound.block_known (shape : p.Shape) {s : Search} (sound : Sound p config q s)
    (running : s.truncated = false) {frame : Frame} (hf : frame ∈ s.stack) {position : Position}
    (holds : Holds frame position) :
    position.block ∈ (p.function frame.function).blocks ∧ frame.function ∈ s.functions := by
  have top := sound.frames running frame hf
  obtain ⟨start, opens, clear⟩ := top.reached holds
  exact ⟨(clear.inside shape (opens.inside shape)).1, top.known⟩

/-- A function that may be entered is a node of the program, and so is its entry block. -/
theorem entry_lt_size (shape : p.Shape) {f : FunctionId} {entry : BlockId}
    (first : (p.function f).entryBlock? = some entry) :
    f < p.nodes.size ∧ entry < p.nodes.size ∧ (p.block entry).function = f := by
  have mem : entry ∈ (p.function f).blocks := List.mem_of_mem_head? first
  obtain ⟨block, hb, _⟩ := shape.block_of_mem mem
  refine ⟨?_, Program.lt_size_of_block? p hb, shape.function_of_mem mem⟩
  cases hf : p.function? f with
  | some function => exact Program.lt_size_of_function? p hf
  | none =>
    rw [Program.function, hf] at mem
    exact absurd mem List.not_mem_nil

theorem Owned.step (shape : p.Shape) {s t : Search} (owned : Owned p s) (sound : Sound p config q s)
    (running : s.truncated = false) (move : Move p config q s t) : Owned p t := by
  cases move with
  | @endBlock frame below b pending stack takes =>
    have held : frame ∈ s.stack := stack ▸ List.mem_cons_self
    obtain ⟨mem, known⟩ := sound.block_known shape running held takes.holds
    intro succ hs
    rcases List.mem_append.mp hs with fresh | old
    · have inside := shape.successor_mem_blocks mem (List.mem_filter.mp fresh).1
      rw [shape.function_of_mem inside]
      exact known
    · exact owned succ old
  | enter stack takes _ _ _ enters =>
    obtain ⟨_, first, _⟩ := mayEnter_of_enterable? enters
    refine List.forall_mem_cons.mpr ⟨?_, fun b hb => List.mem_cons_of_mem _ (owned b hb)⟩
    rw [(entry_lt_size shape first).2.2]
    exact List.mem_cons_self
  | finish => exact owned
  | resume => exact owned
  | cut => exact owned
  | exhaust => exact owned
  | report => exact owned
  | release => exact owned
  | pass => exact owned

theorem Move.measure_lt (shape : p.Shape) {s t : Search} (owned : Owned p s)
    (move : Move p config q s t) :
    measure p t < measure p s := by
  have row : (List.range p.nodes.size).Nodup := List.nodup_range
  cases move with
  | finish stack hand rest =>
    simp only [measure, stack, List.map_cons, List.map_nil, total, frameWeight]
    omega
  | resume stack =>
    simp only [measure, stack, List.map_cons, total, frameWeight]
    omega
  | cut stack =>
    simp only [measure, stack, List.map_cons, total, frameWeight, Option.map_none, Option.getD_none]
    omega
  | @endBlock frame below b pending stack takes =>
    let fresh := (p.block b).successors.filter fun succ => succ ∉ s.blocks
    have new : ∀ succ ∈ fresh, succ ∈ List.range p.nodes.size ∧ succ ∉ s.blocks := by
      intro succ hs
      obtain ⟨mem, notSeen⟩ := List.mem_filter.mp hs
      obtain ⟨_, known, _⟩ := shape.block_of_mem (shape.successor_mem mem)
      exact ⟨List.mem_range.mpr (Program.lt_size_of_block? p known), of_decide_eq_true notSeen⟩
    have blocks :
        unseen (fun b => (p.block b).ops.length + 1) (List.range p.nodes.size) (fresh ++ s.blocks) +
        total (fresh.map fun b => (p.block b).ops.length + 1) =
          unseen (fun b => (p.block b).ops.length + 1) (List.range p.nodes.size) s.blocks :=
      unseen_append row (List.Pairwise.filter _ (shape.successors_nodup b)) new
    have pushed : (fresh.map (fromStart p)).map positionWeight =
        fresh.map fun b => (p.block b).ops.length + 1 := by
      rw [List.map_map]
      rfl
    simp only [measure, Search.endBlock, stack, List.map_cons, total]
    rw [frameWeight_of_takes takes]
    simp only [frameWeight, Option.map_none, Option.getD_none, List.map_append, total_append,
      positionWeight, List.length_nil]
    change unseen _ _ (fresh ++ s.blocks) + _ +
      (1 + 0 + (total ((fresh.map (fromStart p)).map positionWeight) + _) + _) < _
    rw [pushed]
    omega
  | exhaust stack takes =>
    simp only [measure, stack, List.map_cons, total]
    rw [frameWeight_of_takes takes]
    simp only [frameWeight, Option.map_some, Option.getD_some, positionWeight, List.length_cons]
    omega
  | report stack takes =>
    simp only [measure, stack, List.map_cons, total]
    rw [frameWeight_of_takes takes]
    simp only [frameWeight, Option.map_none, Option.getD_none, positionWeight, List.length_cons]
    omega
  | release stack takes =>
    simp only [measure, stack, List.map_cons, total]
    rw [frameWeight_of_takes takes]
    simp only [frameWeight, Option.map_none, Option.getD_none, positionWeight, List.length_cons]
    omega
  | @enter frame below b o rest pending f entry stack takes _ _ _ enters =>
    obtain ⟨_, first, notKnown⟩ := mayEnter_of_enterable? enters
    obtain ⟨function, block, owner⟩ := entry_lt_size shape first
    -- the entry block is new because its function is
    have notWalked : entry ∉ s.blocks := fun h => notKnown (owner ▸ owned entry h)
    have blocks :
        unseen (fun b => (p.block b).ops.length + 1) (List.range p.nodes.size) (entry :: s.blocks) +
        ((p.block entry).ops.length + 1) =
          unseen (fun b => (p.block b).ops.length + 1) (List.range p.nodes.size) s.blocks :=
      unseen_cons row (List.mem_range.mpr block) notWalked
    have functions : unseen (fun _ => 1) (List.range p.nodes.size) (f :: s.functions) + 1 =
        unseen (fun _ => 1) (List.range p.nodes.size) s.functions :=
      unseen_cons row (List.mem_range.mpr function) notKnown
    simp only [measure, stack, List.map_cons, total]
    rw [frameWeight_of_takes takes]
    simp only [frameWeight, List.map_cons, List.map_nil, total, Option.map_some, Option.map_none,
      Option.getD_some, Option.getD_none, positionWeight, fromStart, List.length_cons]
    omega
  | pass stack takes =>
    simp only [measure, stack, List.map_cons, total]
    rw [frameWeight_of_takes takes]
    simp only [frameWeight, Option.map_some, Option.getD_some, positionWeight, List.length_cons]
    omega

/-! ## The fuel of a query -/

theorem measure_startSearch_le {b : BlockId} (site : LockSite) (f : FunctionId)
    (inside : b < p.nodes.size) :
    measure p (p.startSearch site f b) ≤ p.moveBound := by
  have blocks := unseen_le (fun b => (p.block b).ops.length + 1) (List.range p.nodes.size) []
  have functions := unseen_le (fun _ => 1) (List.range p.nodes.size) [f]
  rw [total_map_add, total_map_one, List.length_range, ← p.opSlots_eq] at blocks
  rw [total_map_one, List.length_range] at functions
  have own : (p.block b).ops.length ≤ p.opSlots := by
    rw [p.opSlots_eq]
    exact le_total (fun b => (p.block b).ops.length) (List.mem_range.mpr inside)
  have rest : (((p.block b).ops.dropWhile (· ≠ site.op)).drop 1).length ≤ (p.block b).ops.length :=
    ((List.drop_sublist _ _).trans (List.dropWhile_sublist _)).length_le
  have product : p.opSlots ≤ p.nodes.size * p.opSlots :=
    Nat.le_mul_of_pos_left _ (Nat.lt_of_le_of_lt (Nat.zero_le b) inside)
  have bound : p.moveBound = p.nodes.size * p.opSlots + p.nodes.size * 3 + (p.opSlots + 3) := by
    rw [Program.moveBound, Nat.succ_mul, Nat.mul_add]
  simp only [measure, Program.startSearch, List.map_cons, List.map_nil, total, frameWeight,
    positionWeight, Option.map_none, Option.getD_none]
  omega

/-- A query is cut short or walks everything. -/
theorem run_over (shape : p.Shape) (home : p.functionOf? q.site.op = some q.root) {b : BlockId}
    (mem : q.site.op ∈ (p.block b).ops) {s : Search}
    (ran : run p config q p.moveBound (p.startSearch q.site q.root b) = s) : s.truncated = true ∨
    s.stack = [] := by
  rw [← ran]
  obtain ⟨block, known⟩ := Program.block?_of_mem_ops mem
  have start : Owned p (p.startSearch q.site q.root b) ∧
      Sound p config q (p.startSearch q.site q.root b) :=
    ⟨fun _ h => absurd h List.not_mem_nil, sound_startSearch home mem⟩
  refine over_of_advance (run_stops (fun s => Owned p s ∧
    Sound p config q s) (measure p) ?_ ?_ p.moveBound
    start (measure_startSearch_le q.site q.root (Program.lt_size_of_block? p known)))
  · rintro s t ⟨owned, sound⟩ running move
    exact ⟨owned.step shape sound running move, sound.step shape home running move⟩
  · rintro s t ⟨owned, _⟩ move
    exact move.measure_lt shape owned

end Search
end Relock
