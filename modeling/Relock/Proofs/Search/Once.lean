import Relock.Proofs.Program.WellFormed
import Relock.Proofs.Search.Limit

/-!
# A query visits little

`held` lists the positions that a search still has to walk, over all its frames. A move does one of
five things to them (`Shift`), and what follows looks at nothing else of a move: no block is held
twice, a block that was taken up is never taken up again, and every step uses up an operation.

The block of the site is walked twice: what follows the site first, and all of it if a loop leads
back. As long as the first walk goes on it is the only one in the site's function (`Tidy.taken`), so
that a loop leads back only if the first walk came to the end of the block and told nothing there.
Hence no operation is reported twice (`Told`).
-/

namespace Relock
namespace Search

variable {p : Program} {config : Config} {q : Query} {start : Position} {s t : Search}

/-! ## The positions held -/

/-- The positions that the frames of a stack still have to walk, the next one first. -/
def held (stack : List Frame) : List Position := stack.flatMap todo

@[simp] theorem held_cons (frame : Frame) (below : List Frame) :
    held (frame :: below) = todo frame ++ held below :=
  List.flatMap_cons

theorem held_of_takes {frame : Frame} {below : List Frame} {position : Position}
    {pending : List Position} (stack : s.stack = frame :: below)
    (takes : Takes frame position pending) :
    held s.stack = position :: (pending ++ held below) := by
  rw [stack, held_cons, todo_of_takes takes, List.cons_append]

/-- What a move does to the positions held, the steps and the blocks taken up. -/
inductive Shift (p : Program) (s t : Search) : Prop where
  /-- A frame without positions is left, and its caller may drop one. -/
  | leave {frame below} (stack : s.stack = frame :: below) (idle : todo frame = [])
      (after : (held t.stack).Sublist (held s.stack)) (steps : t.steps = s.steps)
      (blocks : t.blocks = s.blocks)
  | stop {b o rest others} (before : held s.stack = ⟨b, o :: rest⟩ :: others)
      (after : held t.stack = others) (steps : t.steps = s.steps + 1) (blocks : t.blocks = s.blocks)
  | pass {b o rest others} (before : held s.stack = ⟨b, o :: rest⟩ :: others)
      (after : held t.stack = ⟨b, rest⟩ :: others)
      (steps : t.steps = s.steps + 1) (blocks : t.blocks = s.blocks)
  | spread {b others fresh} (before : held s.stack = ⟨b, []⟩ :: others)
      (new : fresh = (p.block b).successors.filter fun succ => succ ∉ s.blocks)
      (after : held t.stack = fresh.map (fromStart p) ++ others) (steps : t.steps = s.steps)
      (blocks : t.blocks = fresh ++ s.blocks)
  | enter {b o rest others f entry} (before : held s.stack = ⟨b, o :: rest⟩ :: others)
      (new : f ∉ s.functions) (first : (p.function f).entryBlock? = some entry)
      (after : held t.stack = fromStart p entry :: ⟨b, rest⟩ :: others)
      (steps : t.steps = s.steps + 1) (blocks : t.blocks = entry :: s.blocks)

theorem Move.shift (move : Move p config q s t) : Shift p s t := by
  cases move with
  | finish stack hand rest =>
    exact .leave stack (todo_eq_nil.mpr ⟨hand, rest⟩) (List.nil_sublist _) rfl rfl
  | resume stack hand rest =>
    refine .leave stack (todo_eq_nil.mpr ⟨hand, rest⟩) ?_ rfl rfl
    rw [stack, held_cons]
    exact List.sublist_append_right _ _
  | @cut _ caller below stack hand rest =>
    refine .leave stack (todo_eq_nil.mpr ⟨hand, rest⟩) ?_ rfl rfl
    have pending : (todo { caller with found := true, cursor := none }).Sublist (todo caller) :=
      List.sublist_append_right _ _
    rw [stack, held_cons, held_cons, held_cons]
    exact (pending.append_right _).trans (List.sublist_append_right _ _)
  | endBlock stack takes =>
    refine .spread (held_of_takes stack takes) rfl ?_ rfl rfl
    simp only [Search.endBlock, held_cons, todo, Option.toList_none, List.nil_append,
      List.append_assoc]
  | exhaust stack takes => exact .pass (held_of_takes stack takes) rfl rfl rfl
  | report stack takes => exact .stop (held_of_takes stack takes) rfl rfl rfl
  | release stack takes => exact .stop (held_of_takes stack takes) rfl rfl rfl
  | enter stack takes _ _ _ enters =>
    obtain ⟨_, first, new⟩ := mayEnter_of_enterable? enters
    exact .enter (held_of_takes stack takes) new first rfl rfl rfl
  | pass stack takes => exact .pass (held_of_takes stack takes) rfl rfl rfl

theorem Shift.blocks_subset (shift : Shift p s t) : s.blocks ⊆ t.blocks := by
  cases shift with
  | leave _ _ _ _ blocks => exact blocks ▸ List.Subset.refl _
  | stop _ _ _ blocks => exact blocks ▸ List.Subset.refl _
  | pass _ _ _ blocks => exact blocks ▸ List.Subset.refl _
  | spread _ _ _ _ blocks => exact blocks ▸ List.subset_append_right _ _
  | enter _ _ _ _ _ blocks => exact blocks ▸ List.subset_cons_self _ _

/-! ## Nothing is held twice -/

/-- The block of the site is the only one of its function that is walked. -/
def Alone (p : Program) (start : Position) (s : Search) : Prop :=
  ∀ position ∈ held s.stack, (p.block position.block).function = (p.block start.block).function →
    position.block = start.block

/-- How positions are held when `start` is where the query began. -/
structure Tidy (p : Program) (start : Position) (s : Search) : Prop where
  distinct : ((held s.stack).map (·.block)).Nodup
  inside : ∀ position ∈ held s.stack, position.rest <:+ (p.block position.block).ops
  /-- A block is walked from its start after it was taken up; otherwise the walk is the first
  one. -/
  taken : ∀ position ∈ held s.stack, position.block ∈ s.blocks ∨
    (position.block = start.block ∧ position.rest <:+ start.rest ∧ Alone p start s)

/-- The block of the next position is held there only. -/
theorem Tidy.others_ne {b : BlockId} {rest : List OpId} {others : List Position}
    (tidy : Tidy p start s) (before : held s.stack = ⟨b, rest⟩ :: others) :
    ∀ other ∈ others, other.block ≠ b := by
  have distinct := tidy.distinct
  rw [before, List.map_cons, List.nodup_cons] at distinct
  intro other mem same
  exact distinct.1 (List.mem_map.mpr ⟨other, mem, same⟩)

/-- A block that a call enters has not been taken up, and is none of the site's function. -/
theorem entry_new (shape : p.Shape) (owned : Owned p s)
    (home : (p.block start.block).function ∈ s.functions) {f : FunctionId} {entry : BlockId}
    (new : f ∉ s.functions) (first : (p.function f).entryBlock? = some entry) :
    entry ∉ s.blocks ∧ (p.block entry).function ≠ (p.block start.block).function := by
  have owner := (entry_lt_size shape first).2.2
  refine ⟨fun mem => new (owner ▸ owned entry mem), fun same => new ?_⟩
  rw [← owner, same]
  exact home

theorem fresh_new (shape : p.Shape) {b succ : BlockId}
    (mem : succ ∈ (p.block b).successors.filter fun succ => succ ∉ s.blocks) :
    succ ∉ s.blocks ∧ (p.block succ).function = (p.block b).function := by
  obtain ⟨next, new⟩ := List.mem_filter.mp mem
  exact ⟨of_decide_eq_true new, shape.function_of_mem (shape.successor_mem next)⟩

/-- The next position gives way to some others. -/
theorem Tidy.replace (tidy : Tidy p start s) {position : Position} {others : List Position}
    (more : List Position) (before : held s.stack = position :: others)
    (after : held t.stack = more ++ others) (grown : s.blocks ⊆ t.blocks)
    (distinct : (more.map (·.block)).Nodup)
    (apart : ∀ x ∈ more, ∀ other ∈ others, other.block ≠ x.block)
    (inside : ∀ x ∈ more, x.rest <:+ (p.block x.block).ops)
    (taken : ∀ x ∈ more, x.block ∈ t.blocks ∨
      (x.block = start.block ∧ x.rest <:+ start.rest ∧ Alone p start t))
    (alone : ∀ other ∈ others, other.block = start.block → Alone p start s → Alone p start t) :
    Tidy p start t := by
  have old {other : Position} (mem : other ∈ others) : other ∈ held s.stack :=
    before ▸ List.mem_cons_of_mem _ mem
  refine ⟨?_, fun x hx => ?_, fun x hx => ?_⟩
  · have kept := tidy.distinct
    rw [before, List.map_cons, List.nodup_cons] at kept
    rw [after, List.map_append, List.nodup_append]
    refine ⟨distinct, kept.2, fun a ha b hb same => ?_⟩
    obtain ⟨x, hx, rfl⟩ := List.mem_map.mp ha
    obtain ⟨other, mem, rfl⟩ := List.mem_map.mp hb
    exact apart x hx other mem same.symm
  · rcases List.mem_append.mp (after ▸ hx) with new | mem
    · exact inside x new
    · exact tidy.inside x (old mem)
  · rcases List.mem_append.mp (after ▸ hx) with new | mem
    · exact taken x new
    · rcases tidy.taken x (old mem) with taken | ⟨here, rest, single⟩
      · exact .inl (grown taken)
      · exact .inr ⟨here, rest, alone x mem here single⟩

/-- The walk of a block goes on, and nothing else of the site's function begins to be walked. -/
theorem Tidy.goesOn {b : BlockId} {o : OpId} {rest : List OpId} {others : List Position}
    (tidy : Tidy p start s) (before : held s.stack = ⟨b, o :: rest⟩ :: others)
    (grown : s.blocks ⊆ t.blocks) (alone : Alone p start s → Alone p start t) :
    rest <:+ (p.block b).ops ∧
    (b ∈ t.blocks ∨ (b = start.block ∧ rest <:+ start.rest ∧ Alone p start t)) := by
  have mem : ⟨b, o :: rest⟩ ∈ held s.stack := before ▸ List.mem_cons_self
  refine ⟨(List.suffix_cons o rest).trans (tidy.inside _ mem), ?_⟩
  rcases tidy.taken _ mem with taken | ⟨here, first, single⟩
  · exact .inl (grown taken)
  · exact .inr ⟨here, (List.suffix_cons o rest).trans first, alone single⟩

theorem Tidy.spread {b : BlockId} {others : List Position} {fresh : List BlockId} (shape : p.Shape)
    (tidy : Tidy p start s) (before : held s.stack = ⟨b, []⟩ :: others)
    (new : fresh = (p.block b).successors.filter fun succ => succ ∉ s.blocks)
    (after : held t.stack = fresh.map (fromStart p) ++ others)
    (blocks : t.blocks = fresh ++ s.blocks) :
    Tidy p start t := by
  have found {x : Position} (hx : x ∈ fresh.map (fromStart p)) :
      x.rest = (p.block x.block).ops ∧ x.block ∈ t.blocks ∧ x.block ∉ s.blocks ∧
        (p.block x.block).function = (p.block b).function := by
    obtain ⟨succ, mem, rfl⟩ := List.mem_map.mp hx
    have fresh := fresh_new shape (new ▸ mem)
    exact ⟨rfl, blocks ▸ List.mem_append_left _ mem, fresh⟩
  -- while the first walk goes on elsewhere, the block that ends here is of another function
  have alone {other : Position} (mem : other ∈ others) (here : other.block = start.block)
      (single : Alone p start s) :
      (p.block b).function ≠ (p.block start.block).function := by
    intro same
    have first : b = start.block := single ⟨b, []⟩ (before ▸ List.mem_cons_self) same
    exact tidy.others_ne before other mem (here.trans first.symm)
  refine tidy.replace (fresh.map (fromStart p)) before after
    (blocks ▸ List.subset_append_right _ _) ?_ ?_
    (fun x hx => (found hx).1 ▸ List.suffix_refl _) (fun x hx => .inl (found hx).2.1) ?_
  · have row : (fresh.map (fromStart p)).map (·.block) = fresh := by
      rw [List.map_map]
      exact List.map_id _
    rw [row, new]
    exact (shape.successors_nodup b).sublist List.filter_sublist
  · intro x hx other mem same
    obtain ⟨_, _, notTaken, function⟩ := found hx
    rcases tidy.taken other (before ▸ List.mem_cons_of_mem _ mem) with taken | ⟨here, _, single⟩
    · exact notTaken (same ▸ taken)
    · exact alone mem here single (function.symm.trans (same ▸ here ▸ rfl))
  · intro other mem here single x hx root
    rcases List.mem_append.mp (after ▸ hx) with begun | old
    · exact absurd ((found begun).2.2.2.symm.trans root) (alone mem here single)
    · exact single x (before ▸ List.mem_cons_of_mem _ old) root

theorem Tidy.enter {b : BlockId} {o : OpId} {rest : List OpId} {others : List Position}
    {f : FunctionId} {entry : BlockId} (shape : p.Shape) (owned : Owned p s)
    (home : (p.block start.block).function ∈ s.functions) (tidy : Tidy p start s)
    (before : held s.stack = ⟨b, o :: rest⟩ :: others) (new : f ∉ s.functions)
    (first : (p.function f).entryBlock? = some entry)
    (after : held t.stack = fromStart p entry :: ⟨b, rest⟩ :: others)
    (blocks : t.blocks = entry :: s.blocks) :
    Tidy p start t := by
  have grown : s.blocks ⊆ t.blocks := blocks ▸ List.subset_cons_self _ _
  obtain ⟨notTaken, elsewhere⟩ := entry_new shape owned home new first
  have alone (single : Alone p start s) : Alone p start t := by
    intro x hx root
    rw [after] at hx
    rcases List.mem_cons.mp hx with rfl | later
    · exact absurd root elsewhere
    · rcases List.mem_cons.mp later with rfl | old
      · exact single ⟨b, o :: rest⟩ (before ▸ List.mem_cons_self) root
      · exact single x (before ▸ List.mem_cons_of_mem _ old) root
  -- what is held belongs to a block taken up or to the site's function, the entry to neither
  have other {x : Position} (hx : x ∈ held s.stack) : x.block ≠ entry := by
    rintro rfl
    rcases tidy.taken x hx with taken | ⟨here, _, _⟩
    · exact notTaken taken
    · exact elsewhere (here ▸ rfl)
  obtain ⟨inside, taken⟩ := tidy.goesOn before grown alone
  have two {P : Position → Prop} (begun : P (fromStart p entry)) (on : P ⟨b, rest⟩) :
      ∀ x ∈ [fromStart p entry, ⟨b, rest⟩], P x :=
    List.forall_mem_cons.mpr ⟨begun, List.forall_mem_singleton.mpr on⟩
  refine tidy.replace [fromStart p entry, ⟨b, rest⟩] before after grown ?_
    (two ?_ (tidy.others_ne before))
    (two (List.suffix_refl _) inside) (two (.inl (blocks ▸ List.mem_cons_self)) taken) fun _ _ _ =>
      alone
  · have apart : b ≠ entry := @other ⟨b, o :: rest⟩ (before ▸ List.mem_cons_self)
    exact List.nodup_cons.mpr ⟨fun h => apart (List.mem_singleton.mp h).symm,
      List.nodup_singleton _⟩
  · exact fun x hx => other (before ▸ List.mem_cons_of_mem _ hx)

theorem Tidy.shift (shape : p.Shape) (owned : Owned p s)
    (home : (p.block start.block).function ∈ s.functions) (tidy : Tidy p start s)
    (shift : Shift p s t) : Tidy p start t := by
  have grown := shift.blocks_subset
  cases shift with
  | leave _ _ after _ blocks =>
    refine ⟨tidy.distinct.sublist (after.map _), fun x hx => tidy.inside x (after.subset hx),
      fun x hx => ?_⟩
    rcases tidy.taken x (after.subset hx) with taken | ⟨here, rest, single⟩
    · exact .inl (grown taken)
    · exact .inr ⟨here, rest, fun y hy => single y (after.subset hy)⟩
  | stop before after =>
    have none {P : Position → Prop} : ∀ x ∈ ([] : List Position), P x := List.forall_mem_nil _
    refine tidy.replace [] before after grown List.nodup_nil none none none fun _ _ _ single x hx =>
      ?_
    rw [after] at hx
    exact single x (before ▸ List.mem_cons_of_mem _ hx)
  | @pass b o rest others before after =>
    have alone (single : Alone p start s) : Alone p start t := by
      intro x hx
      rcases List.mem_cons.mp (after ▸ hx) with rfl | old
      · exact single ⟨b, o :: rest⟩ (before ▸ List.mem_cons_self)
      · exact single x (before ▸ List.mem_cons_of_mem _ old)
    obtain ⟨inside, taken⟩ := tidy.goesOn before grown alone
    have one {P : Position → Prop} (h : P ⟨b, rest⟩) : ∀ x ∈ [(⟨b, rest⟩ : Position)], P x :=
      List.forall_mem_singleton.mpr h
    exact tidy.replace [⟨b, rest⟩] before after grown (List.nodup_singleton _)
      (one (tidy.others_ne before))
      (one inside) (one taken) fun _ _ _ => alone
  | spread before new after _ blocks => exact tidy.spread shape before new after blocks
  | enter before new first after _ blocks =>
    exact tidy.enter shape owned home before new first after blocks

/-- What holds in every state of a query that began at `start`. -/
structure Orderly (p : Program) (config : Config) (q : Query) (start : Position)
    (s : Search) : Prop where
  sound : Sound p config q s
  owned : Owned p s
  tidy : Tidy p start s

theorem Orderly.root_mem (orderly : Orderly p config q start s) : q.root ∈ s.functions :=
  orderly.sound.functions ▸ root_mem_known _ _

theorem Orderly.step (shape : p.Shape) (home : p.functionOf? q.site.op = some q.root)
    (root : (p.block start.block).function = q.root) (orderly : Orderly p config q start s)
    (running : s.truncated = false) (move : Move p config q s t) : Orderly p config q start t where
  sound := orderly.sound.step shape home running move
  owned := orderly.owned.step shape orderly.sound running move
  tidy := orderly.tidy.shift shape orderly.owned (root ▸ orderly.root_mem) move.shift

theorem orderly_startSearch
    (home : p.functionOf? q.site.op = some q.root) {b : BlockId} {before rest : List OpId}
    (ops : (p.block b).ops = before ++ q.site.op :: rest)
    (after : ((p.block b).ops.dropWhile (· ≠ q.site.op)).drop 1 = rest) :
    Orderly p config q ⟨b, rest⟩ (p.startSearch q.site q.root b) := by
  have only : held (p.startSearch q.site q.root b).stack = [⟨b, rest⟩] := by rw [← after]; rfl
  have one {P : Position → Prop} (h : P ⟨b, rest⟩) :
      ∀ x ∈ held (p.startSearch q.site q.root b).stack, P x :=
    only ▸ List.forall_mem_singleton.mpr h
  refine ⟨sound_startSearch home (ops ▸ List.mem_append_right _ List.mem_cons_self),
    fun _ h => absurd h List.not_mem_nil,
    only ▸ List.nodup_singleton _, one ⟨before ++ [q.site.op], by rw [ops]; simp⟩, ?_⟩
  exact one (.inr ⟨rfl, List.suffix_refl _, one fun _ => rfl⟩)

/-! ## Blocks and functions are taken up once -/

/-- The search takes up a position that was pending. -/
def TakesUp (s : Search) (position : Position) : Prop := s.truncated = false ∧
  ∃ frame below pending, s.stack = frame :: below ∧ frame.cursor = none ∧
  frame.pending = position :: pending

/-- A function was put on the stack between two states. -/
def Pushes (s t : Search) (f : FunctionId) : Prop :=
  ∃ frame below, t.stack = frame :: below ∧ below.length = s.stack.length ∧ frame.function = f

/-- A block was taken up, and its walk from the start is not to come. -/
structure Settled (p : Program) (s : Search) (b : BlockId) : Prop where
  taken : b ∈ s.blocks
  past : fromStart p b ∉ held s.stack

theorem TakesUp.held {position : Position} (takes : TakesUp s position) :
    ∃ others, held s.stack = position :: others := by
  obtain ⟨_, frame, below, pending, stack, hand, row⟩ := takes
  exact ⟨_, held_of_takes stack (.next hand row)⟩

theorem Settled.not_takesUp {b : BlockId} (settled : Settled p s b) :
    ¬ TakesUp s (fromStart p b) := by
  intro takes
  obtain ⟨others, before⟩ := takes.held
  exact settled.past (before ▸ List.mem_cons_self)

/-- What is left of a block after an operation is not all of it. -/
theorem Tidy.rest_ne {b b' : BlockId} {o : OpId} {rest : List OpId} {others : List Position}
    (tidy : Tidy p start s) (before : held s.stack = ⟨b, o :: rest⟩ :: others) :
    fromStart p b' ≠ ⟨b, rest⟩ := by
  rintro same
  obtain ⟨rfl, ops⟩ := Position.mk.inj same
  have inside := (tidy.inside _ (before ▸ List.mem_cons_self)).length_le
  simp only [ops, List.length_cons] at inside
  omega

/-- The walk of a block that was taken up, if it is to come after a move, was to come before it, and
not next unless the move left a function. -/
theorem Shift.waits (shape : p.Shape) (owned : Owned p s) (tidy : Tidy p start s)
    (shift : Shift p s t) {b : BlockId} (taken : b ∈ s.blocks)
    (mem : fromStart p b ∈ held t.stack) :
    (fromStart p b ∈ held s.stack ∧ ∃ frame below, s.stack = frame :: below ∧ todo frame = []) ∨
      ∃ position others, held s.stack = position :: others ∧ fromStart p b ∈ others := by
  cases shift with
  | leave stack idle after => exact .inl ⟨after.subset mem, _, _, stack, idle⟩
  | stop before after => exact .inr ⟨_, _, before, after ▸ mem⟩
  | pass before after =>
    rcases List.mem_cons.mp (after ▸ mem) with here | old
    · exact absurd here (tidy.rest_ne before)
    · exact .inr ⟨_, _, before, old⟩
  | spread before new after =>
    rcases List.mem_append.mp (after ▸ mem) with begun | old
    · obtain ⟨succ, fresh, same⟩ := List.mem_map.mp begun
      obtain rfl : succ = b := congrArg Position.block same
      exact absurd taken (fresh_new shape (new ▸ fresh)).1
    · exact .inr ⟨_, _, before, old⟩
  | enter before new first after =>
    rw [after] at mem
    rcases List.mem_cons.mp mem with same | later
    · obtain rfl : b = _ := congrArg Position.block same
      exact absurd ((entry_lt_size shape first).2.2 ▸ owned b taken) new
    · rcases List.mem_cons.mp later with here | old
      · exact absurd here (tidy.rest_ne before)
      · exact .inr ⟨_, _, before, old⟩

theorem Settled.shift (shape : p.Shape) (owned : Owned p s) (tidy : Tidy p start s)
    (shift : Shift p s t) {b : BlockId} (settled : Settled p s b) : Settled p t b := by
  refine ⟨shift.blocks_subset settled.taken, fun mem => settled.past ?_⟩
  rcases shift.waits shape owned tidy settled.taken mem with ⟨old, _⟩ | ⟨_, others, before, old⟩
  · exact old
  · exact before ▸ List.mem_cons_of_mem _ old

/-- A block whose walk begins is settled from then on. What follows the site is less than its
block. -/
theorem Settled.of_takesUp (shape : p.Shape) (owned : Owned p s)
    (short : start.rest.length < (p.block start.block).ops.length) (tidy : Tidy p start s)
    (shift : Shift p s t) {b : BlockId} (takes : TakesUp s (fromStart p b)) : Settled p t b := by
  obtain ⟨others, first⟩ := takes.held
  have taken : b ∈ s.blocks := by
    rcases tidy.taken _ (first ▸ List.mem_cons_self) with taken | ⟨here, rest, _⟩
    · exact taken
    · have bound := rest.length_le
      obtain rfl : b = start.block := here
      exact absurd short (Nat.not_lt_of_le bound)
  refine ⟨shift.blocks_subset taken, fun mem => ?_⟩
  rcases shift.waits shape owned tidy taken mem with ⟨_, frame, below, stack, idle⟩ | ⟨_, _,
    before, old⟩
  · obtain ⟨_, top, _, pending, stack', _, row⟩ := takes
    obtain ⟨rfl, _⟩ := List.cons.inj (stack.symm.trans stack')
    rw [(todo_eq_nil.mp idle).2] at row
    cases row
  · obtain ⟨_, rfl⟩ := List.cons.inj (first.symm.trans before)
    exact tidy.others_ne first _ old rfl

/-- A function that is put on the stack was not known before. -/
theorem Move.pushes (move : Move p config q s t) {f : FunctionId} (pushes : Pushes s t f) :
    f ∉ s.functions ∧ f ∈ t.functions := by
  obtain ⟨frame, below, stack, length, rfl⟩ := pushes
  cases move with
  | enter stack' _ _ _ _ enters =>
    cases stack
    exact ⟨(mayEnter_of_enterable? enters).2.2, List.mem_cons_self⟩
  | finish => cases stack
  | resume stack' | cut stack' | endBlock stack' | exhaust stack' | report stack' | release stack'
    | pass stack' =>
    cases stack
    simp only [stack', List.length_cons] at length
    omega

theorem Move.functions_subset (move : Move p config q s t) : s.functions ⊆ t.functions := by
  cases move with
  | enter => exact List.subset_cons_self _ _
  | finish | resume | cut | endBlock | exhaust | report | release | pass => exact List.Subset.refl _

/-! ## Steps -/

/-- The operations that a search may still visit: those of the blocks not taken up and of the
positions held. -/
def ahead (p : Program) (s : Search) : Nat :=
  unseen (fun b => (p.block b).ops.length) p.blockIds s.blocks +
    total ((held s.stack).map (·.rest.length))

/-- Every step uses up an operation. -/
theorem Shift.spends (shape : p.Shape) (owned : Owned p s)
    (listed : ∀ {f b}, b ∈ (p.function f).blocks → b ∈ p.blockIds) (shift : Shift p s t) :
    t.steps + ahead p t ≤ s.steps + ahead p s := by
  have row : p.blockIds.Nodup := (Program.ofSort_blockIds shape).nodup
  cases shift with
  | leave _ _ after steps blocks =>
    have less := total_le_of_sublist (after.map (·.rest.length))
    simp only [ahead, steps, blocks]
    omega
  | stop before after steps blocks =>
    simp only [ahead, before, after, steps, blocks, List.map_cons, total, List.length_cons]
    omega
  | pass before after steps blocks =>
    simp only [ahead, before, after, steps, blocks, List.map_cons, total, List.length_cons]
    omega
  | @spread b others fresh before new after steps blocks =>
    have nodup : fresh.Nodup := new ▸ (shape.successors_nodup b).sublist List.filter_sublist
    have taken : ∀ succ ∈ fresh, succ ∈ p.blockIds ∧ succ ∉ s.blocks := by
      intro succ mem
      obtain ⟨next, _⟩ := List.mem_filter.mp (new ▸ mem)
      exact ⟨listed (shape.successor_mem next), (fresh_new shape (new ▸ mem)).1⟩
    have moved : unseen (fun b => (p.block b).ops.length) p.blockIds (fresh ++ s.blocks) +
        total (fresh.map fun b => (p.block b).ops.length) =
          unseen (fun b => (p.block b).ops.length) p.blockIds s.blocks :=
      unseen_append row nodup taken
    have begun : (fresh.map (fromStart p)).map (·.rest.length) =
        fresh.map fun b => (p.block b).ops.length := by
      rw [List.map_map]
      rfl
    simp only [ahead, before, after, steps, blocks, List.map_append, List.map_cons, total_append,
      total, begun, List.length_nil]
    omega
  | @enter b o rest others f entry before new first after steps blocks =>
    have notTaken : entry ∉ s.blocks :=
      fun mem => new ((entry_lt_size shape first).2.2 ▸ owned entry mem)
    have moved : unseen (fun b => (p.block b).ops.length) p.blockIds (entry :: s.blocks) +
        (p.block entry).ops.length =
          unseen (fun b => (p.block b).ops.length) p.blockIds s.blocks :=
      unseen_cons row (listed (List.mem_of_mem_head? first)) notTaken
    simp only [ahead, before, after, steps, blocks, List.map_cons, total, List.length_cons,
      fromStart]
    omega

/-! ## Nothing is told twice -/

/-- An operation is not to come again. -/
structure Over (p : Program) (start : Position) (s : Search) (o : OpId) : Prop where
  past : ∀ position ∈ held s.stack, o ∉ position.rest
  /-- Its block is not to be taken up again. The site's own was perhaps not taken up yet, but then
  nothing of its function is to come. -/
  gone : ∀ {b}, o ∈ (p.block b).ops → b ∈ s.blocks ∨
    (b = start.block ∧ ∀ position ∈ held s.stack,
      (p.block position.block).function ≠ (p.block start.block).function)

/-- A position held after a move was held before it, or goes on with one that was, or begins a block
that was not taken up, in the function of one that was held or in another function than the
site's. -/
theorem Shift.origin (shape : p.Shape) (owned : Owned p s)
    (home : (p.block start.block).function ∈ s.functions) (shift : Shift p s t) {x : Position}
    (mem : x ∈ held t.stack) :
    (∃ old ∈ held s.stack, old.block = x.block ∧ x.rest ⊆ old.rest) ∨
      (x.block ∉ s.blocks ∧ x.rest = (p.block x.block).ops ∧
        ((p.block x.block).function ≠ (p.block start.block).function ∨
          ∃ old ∈ held s.stack, (p.block old.block).function = (p.block x.block).function)) := by
  have kept {old : Position} (mem : old ∈ held s.stack) :
      ∃ old' ∈ held s.stack, old'.block = old.block ∧ old.rest ⊆ old'.rest :=
    ⟨old, mem, rfl, List.Subset.refl _⟩
  cases shift with
  | leave _ _ after => exact .inl (kept (after.subset mem))
  | stop before after => exact .inl (kept (before ▸ List.mem_cons_of_mem _ (after ▸ mem)))
  | @pass b o rest others before after =>
    rcases List.mem_cons.mp (after ▸ mem) with rfl | old
    · exact .inl ⟨⟨b, o :: rest⟩, before ▸ List.mem_cons_self, rfl, List.subset_cons_self _ _⟩
    · exact .inl (kept (before ▸ List.mem_cons_of_mem _ old))
  | spread before new after =>
    rcases List.mem_append.mp (after ▸ mem) with begun | old
    · obtain ⟨succ, fresh, rfl⟩ := List.mem_map.mp begun
      obtain ⟨notTaken, function⟩ := fresh_new shape (new ▸ fresh)
      exact .inr ⟨notTaken, rfl, .inr ⟨_, before ▸ List.mem_cons_self, function.symm⟩⟩
    · exact .inl (kept (before ▸ List.mem_cons_of_mem _ old))
  | @enter b o rest others f entry before new first after =>
    rw [after] at mem
    rcases List.mem_cons.mp mem with rfl | later
    · obtain ⟨notTaken, elsewhere⟩ := entry_new shape owned home new first
      exact .inr ⟨notTaken, rfl, .inl elsewhere⟩
    · rcases List.mem_cons.mp later with rfl | old
      · exact .inl ⟨⟨b, o :: rest⟩, before ▸ List.mem_cons_self, rfl, List.subset_cons_self _ _⟩
      · exact .inl (kept (before ▸ List.mem_cons_of_mem _ old))

theorem Over.shift (shape : p.Shape) (owned : Owned p s)
    (home : (p.block start.block).function ∈ s.functions) {o : OpId} (ended : Over p start s o)
    (shift : Shift p s t) : Over p start t o := by
  refine ⟨fun x hx mem => ?_, fun {b} mem => ?_⟩
  · rcases shift.origin shape owned home hx with ⟨old, hold, _, rest⟩ | ⟨notTaken, ops, elsewhere⟩
    · exact ended.past old hold (rest mem)
    · rcases ended.gone (ops ▸ mem) with taken | ⟨here, none⟩
      · exact notTaken taken
      · rcases elsewhere with other | ⟨old, hold, function⟩
        · exact other (here ▸ rfl)
        · exact none old hold (function.trans (here ▸ rfl))
  · rcases ended.gone mem with taken | ⟨here, none⟩
    · exact .inl (shift.blocks_subset taken)
    · refine .inr ⟨here, fun x hx root => ?_⟩
      rcases shift.origin shape owned home hx with ⟨old, hold, block, _⟩ | ⟨_, _,
        other | ⟨old, hold, function⟩⟩
      · exact none old hold (block ▸ root)
      · exact other root
      · exact none old hold (function.trans root)

/-- The operations of a block whose walk is given up are over. -/
theorem Over.of_drop (shape : p.Shape) (tidy : Tidy p start s) {b : BlockId} {o : OpId}
    {rest : List OpId} {others : List Position} (before : held s.stack = ⟨b, rest⟩ :: others)
    (after : held t.stack = others) (blocks : t.blocks = s.blocks) (mem : o ∈ (p.block b).ops) :
    Over p start t o := by
  have old {x : Position} (hx : x ∈ held t.stack) : x ∈ held s.stack :=
    before ▸ List.mem_cons_of_mem _ (after ▸ hx)
  have only {b' : BlockId} (other : o ∈ (p.block b').ops) : b' = b :=
    Option.some.inj ((shape.op_of_mem other).symm.trans (shape.op_of_mem mem))
  refine ⟨fun x hx met => ?_, fun {b'} met => ?_⟩
  · exact tidy.others_ne before x (after ▸ hx) (only ((tidy.inside x (old hx)).subset met))
  · obtain rfl := only met
    rw [blocks]
    rcases tidy.taken _ (before ▸ List.mem_cons_self) with taken | ⟨first, _, alone⟩
    · exact .inl taken
    · refine .inr ⟨first, fun x hx root => ?_⟩
      exact tidy.others_ne before x (after ▸ hx) ((alone x (old hx) root).trans first.symm)

/-- What was told is told once and is over. -/
structure Told (p : Program) (start : Position) (s : Search) : Prop where
  once : (s.reports.map (·.second.op)).Nodup
  gone : ∀ r ∈ s.reports, Over p start s r.second.op

theorem Told.step (shape : p.Shape) (root : (p.block start.block).function = q.root)
    (orderly : Orderly p config q start s) (told : Told p start s) (move : Move p config q s t) :
    Told p start t := by
  have home : (p.block start.block).function ∈ s.functions := root ▸ orderly.root_mem
  have kept : ∀ r ∈ s.reports, Over p start t r.second.op :=
    fun r hr => (told.gone r hr).shift shape orderly.owned home move.shift
  cases move with
  | @report frame below b o rest pending second stack takes _ found =>
    have before := held_of_takes stack takes
    have here := (acquires_of_find? found).2
    have mem : o ∈ (p.block b).ops :=
      (orderly.tidy.inside ⟨b, o :: rest⟩ (before ▸ List.mem_cons_self)).subset List.mem_cons_self
    refine ⟨?_, fun r hr => ?_⟩
    · rw [List.map_append, List.map_singleton, here]
      refine List.nodup_append.mpr ⟨told.once, List.nodup_singleton _, fun x hx y hy same => ?_⟩
      obtain ⟨r, hr, rfl⟩ := List.mem_map.mp hx
      refine (told.gone r hr).past _ (before ▸ List.mem_cons_self) ?_
      rw [same, List.mem_singleton.mp hy]
      exact List.mem_cons_self
    · rcases List.mem_append.mp hr with old | new
      · exact kept r old
      · rw [List.mem_singleton.mp new, here]
        exact .of_drop shape orderly.tidy before rfl rfl mem
  | finish | resume | cut | endBlock | exhaust | release | enter | pass => exact ⟨told.once, kept⟩

theorem told_startSearch {site : LockSite} {f : FunctionId} {b : BlockId} :
    Told p start (p.startSearch site f b) :=
  ⟨List.nodup_nil, List.forall_mem_nil _⟩

/-! ## Whole runs -/

theorem run_add (m n : Nat) (s : Search) :
    run p config q (m + n) s = run p config q n (run p config q m s) := by
  induction m generalizing s with
  | zero => rw [Nat.zero_add, run]
  | succ m ih =>
    rw [Nat.succ_add, run, run]
    cases next : s.advance p config q with
    | none => rw [run_of_advance_none next]
    | some t => exact ih t

/-- The state after one more move. -/
theorem run_succ {n : Nat} {s t : Search}
    (next : (run p config q n s).advance p config q = some t) :
    run p config q (n + 1) s = t := by
  rw [run_add]
  simp only [run, next]

section Runs

variable (shape : p.Shape) (home : p.functionOf? q.site.op = some q.root)
  (root : (p.block start.block).function = q.root)
  (begins : Orderly p config q start s)

include shape home root begins

theorem orderly_run (n : Nat) : Orderly p config q start (run p config q n s) :=
  run_invariant _ (fun orderly running move => orderly.step shape home root running move) n begins

/-- The walk of a block begins once. -/
theorem takesUp_once (short : start.rest.length < (p.block start.block).ops.length) {b : BlockId}
    {i j : Nat} (first : TakesUp (run p config q i s) (fromStart p b))
    (second : TakesUp (run p config q j s) (fromStart p b)) : i = j := by
  have later {i j : Nat} (first : TakesUp (run p config q i s) (fromStart p b)) (less : i < j) :
      ¬ TakesUp (run p config q j s) (fromStart p b) := by
    obtain ⟨running, frame, below, _, stack, _⟩ := id first
    obtain ⟨t, next⟩ := advance_of_stack p config q running stack
    have orderly := orderly_run shape home root begins i
    have after := orderly_run shape home root begins (i + 1)
    rw [run_succ next] at after
    have settled : Settled p t b :=
      .of_takesUp shape orderly.owned short orderly.tidy (Move.of_advance next).2.shift first
    obtain ⟨more, rfl⟩ := Nat.exists_eq_add_of_le less
    have still := run_invariant (fun s => Orderly p config q start s ∧ Settled p s b)
      (fun ⟨orderly, settled⟩ running move => ⟨orderly.step shape home root running move,
        settled.shift shape orderly.owned orderly.tidy move.shift⟩) more ⟨after, settled⟩
    rw [run_add, run_succ next]
    exact still.2.not_takesUp
  rcases Nat.lt_trichotomy i j with less | same | more
  · exact absurd second (later first less)
  · exact same
  · exact absurd first (later second more)

/-- A function is entered once, and the site's own is not entered. -/
theorem pushes_once {f : FunctionId} {i : Nat}
    (first : Pushes (run p config q i s) (run p config q (i + 1) s) f) : f ≠ q.root ∧
      ∀ {j}, Pushes (run p config q j s) (run p config q (j + 1) s) f → i = j := by
  have entered {i : Nat} (pushes : Pushes (run p config q i s) (run p config q (i + 1) s) f) :
      f ∉ (run p config q i s).functions ∧ f ∈ (run p config q (i + 1) s).functions := by
    cases next : (run p config q i s).advance p config q with
    | none =>
      obtain ⟨_, below, stack, length, _⟩ := pushes
      rw [run_add, run, next] at stack
      simp only [stack, List.length_cons] at length
      omega
    | some t =>
      rw [run_succ next] at pushes ⊢
      exact (Move.of_advance next).2.pushes pushes
  have later {i j : Nat} (first : Pushes (run p config q i s) (run p config q (i + 1) s) f)
      (less : i < j) :
      f ∈ (run p config q j s).functions := by
    obtain ⟨more, rfl⟩ := Nat.exists_eq_add_of_le less
    rw [run_add]
    exact run_invariant (fun s => f ∈ s.functions) (fun mem _ move => move.functions_subset mem)
      more (entered first).2
  refine ⟨fun same => (entered first).1 (same ▸ (orderly_run shape home root begins i).root_mem),
    fun {j} second => ?_⟩
  rcases Nat.lt_trichotomy i j with less | same | more
  · exact absurd (later first less) (entered second).1
  · exact same
  · exact absurd (later second more) (entered first).1

end Runs

end Search

/-! ## Queries -/

namespace Program

variable {p : Program}

/-- The operations of a program are those of its blocks. -/
theorem allOps_eq (p : Program) : p.allOps = p.blockIds.flatMap fun b => (p.block b).ops := by
  rw [allOps_eq_flatMap_opsOf, blockIds, List.flatMap_assoc]
  rfl

theorem ahead_startSearch {site : LockSite} {f : FunctionId} {b : BlockId} {rest : List OpId}
    (after : ((p.block b).ops.dropWhile (· ≠ site.op)).drop 1 = rest) :
    (p.startSearch site f b).steps + Search.ahead p (p.startSearch site f b) ≤ p.allOps.length +
    rest.length := by
  have blocks : unseen (fun b => (p.block b).ops.length) p.blockIds [] ≤ p.allOps.length := by
    rw [allOps_eq, length_flatMap_eq_total]
    exact unseen_le _ _ _
  have row : Search.held (p.startSearch site f b).stack = [⟨b, rest⟩] := by
    rw [← after]
    rfl
  simp only [Search.ahead, row, List.map_cons, List.map_nil, total]
  exact Nat.le_trans (Nat.le_of_eq (Nat.zero_add _)) (Nat.add_le_add_right blocks _)

/-- The blocks of a loaded program are held by functions that it names. -/
theorem mem_blockIds_of_load {read : Sexp.Reader} {file text : String}
    (loaded : Program.loadWith read file text = .ok p) {f : FunctionId}
    {b : BlockId} (mem : b ∈ (p.function f).blocks) : b ∈ p.blockIds := by
  obtain ⟨_, _, _, state, _⟩ := building_of_load loaded
  obtain ⟨_, _, declares, _⟩ := state.item (List.ne_nil_of_mem mem)
  exact List.mem_flatMap.mpr ⟨f, List.mem_map_of_mem (Keyed.mem_of_get? declares.named), mem⟩

end Program

/-- A query about a site that stands in a block ends. On the way each block is walked from its start
at most once and each function entered at most once, so that its steps are at most the operations of
the program and those that follow the site in its block. It is not cut short if the limit is as
high, and no operation is reported twice. -/
theorem query_visits_once {read : Sexp.Reader} {file text : String} {p : Program}
    (loaded : Program.loadWith read file text = .ok p) (config : Config)
    {site : LockSite} {b : BlockId} (attached : (p.op site.op).block = some b)
    (group : List LockSite) (releases : List OpId) {before rest : List OpId}
    (ops : (p.block b).ops = before ++ site.op :: rest) :
    let q := p.queryAt site group releases b
    let state := fun moves => Search.run p config q moves (p.startSearch site q.root b)
    let bound := p.allOps.length + rest.length
    (∀ {b' i j}, Search.TakesUp (state i) (Search.fromStart p b') →
      Search.TakesUp (state j) (Search.fromStart p b') → i = j) ∧
    (∀ {f i}, Search.Pushes (state i) (state (i + 1)) f → f ≠ q.root ∧
      ∀ {j}, Search.Pushes (state j) (state (j + 1)) f → i = j) ∧
    ∃ result, p.query config site group releases = .ok result ∧
      (∃ moves, (state moves).advance p config q = none ∧
        (group ≠ [] → (state moves).survey.result = result)) ∧
      result.steps ≤ bound ∧ (bound ≤ config.maxSteps → result.truncated = false) ∧
      (result.reports.map (·.second.op)).Nodup := by
  intro q state bound
  have shape := Program.shape_of_load loaded
  have home : p.functionOf? q.site.op = some q.root := Program.functionOf?_of_block attached
  have after := Program.rest_of_split (shape.ops_nodup b) ops
  have begins : Search.Orderly p config q ⟨b, rest⟩ (p.startSearch site q.root b) :=
    Search.orderly_startSearch home ops after
  have short : rest.length < (p.block b).ops.length := by
    rw [ops, List.length_append, List.length_cons]
    omega
  refine ⟨Search.takesUp_once shape home rfl begins short,
    Search.pushes_once shape home rfl begins, ?_⟩
  have ends : (state p.moveBound).advance p config q = none :=
    Search.advance_eq_none (Search.run_over shape home (shape.mem_of_op attached) rfl)
  obtain ⟨result, answered⟩ := Program.query_answers config attached group releases
  have last (filled : group ≠ []) : (state p.moveBound).survey.result = result := by
    rw [Program.query_of_block attached filled] at answered
    exact Except.ok.inj answered
  have steps : result.steps ≤ bound ∧ (result.reports.map (·.second.op)).Nodup := by
    by_cases empty : group = []
    · rw [empty] at answered
      obtain rfl := Except.ok.inj answered
      exact ⟨Nat.zero_le _, List.nodup_nil⟩
    · obtain rfl := last empty
      obtain ⟨_, told, within⟩ := Search.run_invariant
        (fun s => Search.Orderly p config q ⟨b, rest⟩ s ∧ Search.Told p ⟨b, rest⟩ s ∧
          s.steps + Search.ahead p s ≤ bound)
        (fun ⟨orderly, told, within⟩ running move => ⟨orderly.step shape home rfl running move,
          told.step shape rfl orderly move, Nat.le_trans
            (move.shift.spends shape orderly.owned (Program.mem_blockIds_of_load loaded)) within⟩)
        p.moveBound ⟨begins, Search.told_startSearch, Program.ahead_startSearch after⟩
      exact ⟨Nat.le_trans (Nat.le_add_right _ _) within, told.once⟩
  refine ⟨result, answered, ⟨p.moveBound, ends, last⟩, steps.1, fun enough => ?_, steps.2⟩
  cases cut : result.truncated with
  | false => rfl
  | true =>
    have spent := (Program.query_metered answered).1 cut
    omega

set_option maxRecDepth 4000 in
theorem query_visits_once_nested : ∃ p, Program.load "nested" nestedText = .ok p ∧
    (p.op 6).block = some 5 ∧
    p.allOps.length = 11 ∧
    ∃ result, p.query nestedConfig (nestedSite 6) [nestedSite 22] [13] = .ok result ∧
      result.steps ≤ 12 ∧ result.truncated = false ∧ (result.reports.map (·.second.op)).Nodup := by
  obtain ⟨p, loaded, checked⟩ : ∃ p, Program.load "nested" nestedText = .ok p ∧
      decide ((p.op 6).block = some 5 ∧ (p.block 5).ops = [6, 8] ∧ p.allOps.length = 11) = true :=
    Program.exists_of_load rfl (by decide +kernel)
  obtain ⟨attached, ops, all⟩ := of_decide_eq_true checked
  obtain ⟨_, _, result, answered, _, steps, whole, distinct⟩ :=
    @query_visits_once _ _ _ p loaded nestedConfig (nestedSite 6) 5 attached [nestedSite 22] [13]
      [] [8] ops
  rw [all] at steps whole
  exact ⟨p, loaded, attached, all, result, answered, steps, whole (by decide), distinct⟩

end Relock
