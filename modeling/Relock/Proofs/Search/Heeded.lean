import Relock.Proofs.Search.Complete
import Relock.Proofs.Search.Once
import Relock.Proofs.Search.Recursion

/-!
# What is found inside a call ends the path there

A query walks on after a call only if nothing was found in the function that the call entered. That
function is entered once, by whichever call comes first, and later calls of it are passed over. So a
path to a report passes over no call by which a report was reached, but it may pass over another
call of the same function, and what is found behind that one depends on the order of the walk.

The invariant `Mindful` follows the calls for which the frames below the top wait (`Awaits`): as
long as a frame waits, its path stands before the call. If the call comes back with something found,
it is over (`Over`), and if it comes back with nothing, no report came through it (`Silent`) and
none will.
-/

namespace Relock

/-- A way leads to a position of a function from where its walk begins, over passable operations. -/
def Program.Leads (p : Program) (site : LockSite) (passable : OpId → Prop) (f : FunctionId)
    (position : Position) : Prop :=
  ∃ start os, p.Opens site f start ∧ p.Flow start os position ∧ ∀ o ∈ os, passable o

/-- The calls of a report and its second acquisition are reached over passable operations, each in
its function. -/
structure Report.Follows (p : Program) (site : LockSite) (passable : OpId → Prop)
    (r : Report) : Prop where
  call : ∀ {i : Nat} {c}, r.calls[i]? = some c → ∃ f b rest, r.chain[i]? = some f ∧
    p.Leads site passable f ⟨b, c :: rest⟩
  arrival : ∃ f b rest, r.chain.getLast? = some f ∧ p.Leads site passable f ⟨b, r.second.op :: rest⟩

/-- A call of a function to which the chain of a report goes down. -/
def CallsReported (p : Program) (reports : List Report) (o : OpId) : Prop :=
  ∃ r ∈ reports, ∃ g ∈ r.chain.tail, (p.op o).target? = some g

namespace Program.Leads

variable {p : Program} {site : LockSite} {passable passable' : OpId → Prop} {f : FunctionId}

theorem mono (shape : p.Shape) {position : Position} (leads : p.Leads site passable f position)
    (weaker : ∀ {o}, p.functionOf? o = some f → passable o → passable' o) :
    p.Leads site passable' f position := by
  obtain ⟨start, os, opens, flow, free⟩ := leads
  exact ⟨start, os, opens, flow,
    fun o ho => weaker (flow.functionOf? shape (opens.inside shape) ho) (free o ho)⟩

theorem pass {b : BlockId} {o : OpId} {rest : List OpId}
    (leads : p.Leads site passable f ⟨b, o :: rest⟩) (passed : passable o) :
    p.Leads site passable f ⟨b, rest⟩ := by
  obtain ⟨start, os, opens, flow, free⟩ := leads
  refine ⟨start, os ++ [o], opens, flow.pass, fun x hx => ?_⟩
  rcases List.mem_append.mp hx with old | new
  · exact free x old
  · exact List.mem_singleton.mp new ▸ passed

theorem jump {b succ : BlockId} (leads : p.Leads site passable f ⟨b, []⟩)
    (next : succ ∈ (p.block b).successors) :
    p.Leads site passable f (Search.fromStart p succ) := by
  obtain ⟨start, os, opens, flow, free⟩ := leads
  exact ⟨start, os, opens, flow.jump next, free⟩

theorem mem_ops (shape : p.Shape) {b : BlockId} {o : OpId} {rest : List OpId}
    (leads : p.Leads site passable f ⟨b, o :: rest⟩) :
    o ∈ (p.block b).ops := by
  obtain ⟨start, os, opens, flow, _⟩ := leads
  exact (flow.inside shape (opens.inside shape)).mem_ops

end Program.Leads

theorem Report.Follows.mono {p : Program} (shape : p.Shape) {site : LockSite}
    {passable passable' : OpId → Prop} {r : Report} (follows : r.Follows p site passable)
    (weaker : ∀ {o f}, p.functionOf? o = some f → passable o → passable' o) :
    r.Follows p site passable' where
  call hc := by
    obtain ⟨f, b, rest, place, leads⟩ := follows.call hc
    exact ⟨f, b, rest, place, leads.mono shape weaker⟩
  arrival := by
    obtain ⟨f, b, rest, place, leads⟩ := follows.arrival
    exact ⟨f, b, rest, place, leads.mono shape weaker⟩

namespace Search

variable {p : Program} {config : Config} {q : Query} {start : Position} {s t : Search}
    {live : List OpId}

/-- An operation that is passed over for good: no frame waits for it and no report came through
it. -/
structure Heeded (p : Program) (config : Config) (q : Query) (live : List OpId) (s : Search)
    (o : OpId) : Prop where
  passed : Passed p config q s o
  returned : o ∉ live
  unreported : ∀ r ∈ s.reports, o ∉ r.calls

/-- Each frame waits for a call: a way leads to the call, and the frame goes on right after it. -/
inductive Awaits (p : Program) (site : LockSite) (passable : OpId → Prop) : List Frame →
    List OpId → Prop where
  | nil : Awaits p site passable [] []
  | cons {frame below b c rest live} (hand : frame.cursor = some ⟨b, rest⟩)
      (leads : p.Leads site passable frame.function ⟨b, c :: rest⟩)
      (pending : ∀ position ∈ frame.pending, p.Leads site passable frame.function position)
      (deeper : Awaits p site passable below live) :
      Awaits p site passable (frame :: below) (c :: live)

/-- No report came through the calls of the frames from the top down to the first in which something
was found. -/
def Silent (reports : List Report) : List Frame → List OpId → Prop
  | frame :: below, c :: live => frame.found = true ∨
      ((∀ r ∈ reports, c ∉ r.calls) ∧ Silent reports below live)
  | _, _ => True

/-- How the frames of a stack stand to the calls for which those below the top wait. -/
structure Framed (p : Program) (config : Config) (q : Query) (live : List OpId) (s : Search)
    (frame : Frame) (below : List Frame) : Prop where
  top : ∀ {position}, Holds frame position →
    p.Leads q.site (Heeded p config q live s) frame.function position
  awaits : Awaits p q.site (Heeded p config q live s) below live
  chain : Descends q.root s.entries (liveChain (frame :: below)) live.reverse frame.function
  silent : Silent s.reports (frame :: below) live

/-- What a running search keeps when its frames wait for the calls `live`. -/
structure Mindful (p : Program) (config : Config) (q : Query) (start : Position) (live : List OpId)
    (s : Search) : Prop where
  frames : ∀ {frame below}, s.stack = frame :: below → Framed p config q live s frame below
  entered : ∀ e ∈ s.entries, ∃ b rest, p.Leads q.site (Heeded p config q live s) e.caller ⟨b,
    e.call :: rest⟩
  ended : ∀ r ∈ s.reports, ∀ c ∈ r.calls, c ∈ live ∨ Over p start s c
  reports : ∀ r ∈ s.reports, r.Follows p q.site (Heeded p config q live s)

theorem Heeded.later {live' : List OpId} {o : OpId} (heeded : Heeded p config q live s o)
    (functions : s.functions ⊆ t.functions)
    (returned : o ∉ live') (reports : ∀ r ∈ t.reports, r ∈ s.reports ∨ r.calls ⊆ live) :
    Heeded p config q live' t o := by
  refine ⟨⟨heeded.passed.running, fun g enters => functions (heeded.passed.taken g enters)⟩,
    returned, fun r hr => ?_⟩
  rcases reports r hr with old | through
  · exact heeded.unreported r old
  · exact fun mem => heeded.returned (through mem)

theorem Awaits.mono (shape : p.Shape) {site : LockSite} {passable passable' : OpId → Prop}
    {below : List Frame} (awaits : Awaits p site passable below live)
    (weaker : ∀ {o}, passable o → passable' o) :
    Awaits p site passable' below live := by
  induction awaits with
  | nil => exact .nil
  | cons hand leads pending _ ih =>
    exact .cons hand (leads.mono shape fun _ => weaker) (fun x hx =>
      (pending x hx).mono shape fun _ => weaker) ih

/-- A call for which a frame waits stands in a block that is held. -/
theorem Awaits.held {site : LockSite} {passable : OpId → Prop} {below : List Frame}
    (shape : p.Shape) (awaits : Awaits p site passable below live) {c : OpId} (mem : c ∈ live) :
    ∃ position ∈ held below, c ∈ (p.block position.block).ops := by
  induction awaits with
  | nil => exact absurd mem List.not_mem_nil
  | @cons frame below b c' rest live hand leads _ _ ih =>
    rw [held_cons]
    rcases List.mem_cons.mp mem with rfl | deeper
    · refine ⟨⟨b, rest⟩, List.mem_append_left _ ?_, leads.mem_ops shape⟩
      rw [todo, hand]
      exact List.mem_cons_self
    · obtain ⟨position, held, ops⟩ := ih deeper
      exact ⟨position, List.mem_append_right _ held, ops⟩

/-- An operation of the block that comes next is none for which a frame further down waits. -/
theorem Awaits.notMem {site : LockSite} {passable : OpId → Prop} {below : List Frame}
    (shape : p.Shape) (awaits : Awaits p site passable below live) (tidy : Tidy p start s)
    {b : BlockId} {o : OpId} {rest : List OpId} {others : List Position}
    (before : Search.held s.stack = ⟨b, rest⟩ :: others) (deeper : Search.held below ⊆ others)
    (mem : o ∈ (p.block b).ops) : o ∉ live := by
  intro waits
  obtain ⟨position, held, ops⟩ := awaits.held shape waits
  refine tidy.others_ne before position (deeper held) ?_
  exact Option.some.inj ((shape.op_of_mem ops).symm.trans (shape.op_of_mem mem))

/-! ## What a move keeps -/

/-- The calls that lead to the caller are those that lead to the function called, without the
last. -/
theorem Descends.above {root : FunctionId} {entries : List Entry} {chain : List FunctionId}
    {calls : List OpId} {c : OpId} {f g caller : FunctionId}
    (h : Descends root entries (chain ++ [f]) (calls ++ [c]) g)
    (last : chain.getLast? = some caller) : Descends root entries chain calls caller := by
  generalize long : chain ++ [f] = chain' at h
  generalize row : calls ++ [c] = calls' at h
  cases h with
  | root => exact absurd row (List.append_ne_nil_of_right_ne_nil _ (List.cons_ne_nil _ _))
  | call descends =>
    obtain ⟨rfl, _⟩ := List.append_inj' long rfl
    obtain ⟨rfl, _⟩ := List.append_inj' row rfl
    rw [descends.getLast?, Option.some.injEq] at last
    exact last ▸ descends

/-- The report of an acquisition to which a way leads. -/
theorem follows_of_descends {passable : OpId → Prop} {entries : List Entry}
    (entered : ∀ e ∈ entries, ∃ b rest, p.Leads q.site passable e.caller ⟨b, e.call :: rest⟩)
    {chain : List FunctionId} {calls : List OpId} {f : FunctionId}
    (descends : Descends q.root entries chain calls f) {second : LockSite}
    {b : BlockId} {rest : List OpId} (leads : p.Leads q.site passable f ⟨b, second.op :: rest⟩) :
    ({ first := q.site, second := second, chain := chain, calls := calls } : Report).Follows p
    q.site passable where
  call hc := by
    obtain ⟨e, he, rfl, caller, _⟩ := descends.call_at hc
    obtain ⟨b, rest, leads⟩ := entered e he
    exact ⟨e.caller, b, rest, caller, leads⟩
  arrival := ⟨f, b, rest, descends.getLast?, leads⟩

/-- A call that was entered ends no path, and its function is known. -/
theorem Orderly.passed_of_descends (orderly : Orderly p config q start s) {chain : List FunctionId}
    {calls : List OpId} {f : FunctionId} (descends : Descends q.root s.entries chain calls f)
    {c : OpId} (mem : c ∈ calls) :
    Passed p config q s c := by
  obtain ⟨i, place⟩ := List.mem_iff_getElem?.mp mem
  obtain ⟨e, he, rfl, _⟩ := descends.call_at place
  have entered := orderly.sound.entered e he
  refine ⟨entered.passed, fun g enters => ?_⟩
  obtain rfl : e.callee = g := Option.some.inj (entered.enters.target.symm.trans enters.target)
  rw [orderly.sound.functions]
  exact List.mem_append_left _ (List.mem_map_of_mem he)

section Moves

variable (shape : p.Shape)
    (root : (p.block start.block).function = q.root) (orderly : Orderly p config q start s)
  (mindful : Mindful p config q start live s)

include shape root orderly mindful

/-- What is over stays so. -/
theorem Mindful.ended_shift (shift : Shift p s t) {live' : List OpId}
    (waits : ∀ {r c}, r ∈ s.reports → c ∈ r.calls → c ∈ live →
    c ∈ live' ∨ Over p start t c) : ∀ r ∈ s.reports, ∀ c ∈ r.calls, c ∈ live' ∨
    Over p start t c := by
  intro r hr c hc
  rcases mindful.ended r hr c hc with waiting | ended
  · exact waits hr hc waiting
  · exact .inr (ended.shift shape orderly.owned (root ▸ orderly.root_mem) shift)

omit root orderly in
/-- What was reached stays so if what was passed over is passed over for good. -/
theorem Mindful.leads_later {live' : List OpId}
    (heeded : ∀ {o}, Heeded p config q live s o → Heeded p config q live' t o) :
    (∀ e ∈ s.entries, ∃ b rest, p.Leads q.site (Heeded p config q live' t) e.caller ⟨b,
      e.call :: rest⟩) ∧
      ∀ r ∈ s.reports, r.Follows p q.site (Heeded p config q live' t) := by
  refine ⟨fun e he => ?_, fun r hr => (mindful.reports r hr).mono shape fun _ => heeded⟩
  obtain ⟨b, rest, leads⟩ := mindful.entered e he
  exact ⟨b, rest, leads.mono shape fun _ => heeded⟩

/-- A move that stays in the top frame and tells nothing. -/
theorem Mindful.stay {frame next : Frame} {below : List Frame} (stack : s.stack = frame :: below)
    (after : t.stack = next :: below)
    (function : next.function = frame.function) (found : next.found = frame.found)
    (functions : t.functions = s.functions) (entries : t.entries = s.entries)
    (reports : t.reports = s.reports)
    (shift : Shift p s t)
    (top : ∀ {position}, Holds next position →
      p.Leads q.site (Heeded p config q live s) frame.function position) :
    Mindful p config q start live t := by
  obtain ⟨_, awaits, chain, silent⟩ := mindful.frames stack
  have heeded {o : OpId} (heeded : Heeded p config q live s o) : Heeded p config q live t o :=
    heeded.later (functions ▸ List.Subset.refl _) heeded.returned fun r hr => .inl (reports ▸ hr)
  obtain ⟨entered, told⟩ := mindful.leads_later shape heeded
  refine ⟨fun stack' => ?_, entries ▸ entered, ?_, reports ▸ told⟩
  · obtain ⟨rfl, rfl⟩ := List.cons.inj (after.symm.trans stack')
    refine ⟨fun holds => function ▸ (top holds).mono shape fun _ => heeded,
      awaits.mono shape heeded, ?_, ?_⟩
    · rw [entries, liveChain_cons, function, ← liveChain_cons]
      exact chain
    · rw [reports]
      cases awaits with
      | nil => exact trivial
      | cons => exact Or.imp found.trans id silent
  · rw [reports]
    exact mindful.ended_shift shape root orderly shift fun _ _ => .inl

/-- A member of the group acquires. All calls for which frames wait are calls of the report. -/
theorem Mindful.report {frame : Frame} {below : List Frame} {b : BlockId} {o : OpId}
    {rest : List OpId} {pending : List Position}
    {second : LockSite} (stack : s.stack = frame :: below)
    (takes : Takes frame ⟨b, o :: rest⟩ pending) (here : second.op = o)
    (after : t.stack = { frame with pending := pending, cursor := none, found := true } :: below)
    (functions : t.functions = s.functions) (entries : t.entries = s.entries)
    (reports : t.reports = s.reports ++ [{ first := q.site, second := second
                                           chain := (chainTo q.root s.entries frame.function).1
                                           calls := (chainTo q.root s.entries frame.function).2 }])
    (shift : Shift p s t) : Mindful p config q start live t := by
  obtain ⟨top, awaits, chain, _⟩ := mindful.frames stack
  have route := (chainTo_of_descends orderly.sound.grown chain).1
  rw [route] at reports
  have told {r : Report} (hr : r ∈ t.reports) : r ∈ s.reports ∨ r =
      { first := q.site, second := second, chain := liveChain (frame :: below),
        calls := live.reverse } := by
    rcases List.mem_append.mp (reports ▸ hr) with old | new
    · exact .inl old
    · exact .inr (List.mem_singleton.mp new)
  have heeded {o : OpId} (heeded : Heeded p config q live s o) : Heeded p config q live t o := by
    refine heeded.later (functions ▸ List.Subset.refl _) heeded.returned fun r hr => ?_
    rcases told hr with old | rfl
    · exact .inl old
    · exact .inr fun c hc => List.mem_reverse.mp hc
  obtain ⟨entered, kept⟩ := mindful.leads_later shape heeded
  refine ⟨fun stack' => ?_, entries ▸ entered, fun r hr => ?_, fun r hr => ?_⟩
  · obtain ⟨rfl, rfl⟩ := List.cons.inj (after.symm.trans stack')
    refine ⟨fun holds => ?_, awaits.mono shape heeded, ?_, ?_⟩
    · rcases holds with hand | later
      · cases hand
      · exact (top (takes.holds_pending later)).mono shape fun _ => heeded
    · rw [entries]
      exact chain
    · cases awaits with
      | nil => exact trivial
      | cons => exact .inl rfl
  · rcases told hr with old | rfl
    · exact mindful.ended_shift shape root orderly shift (fun _ _ => .inl) r old
    · exact fun c hc => .inl (List.mem_reverse.mp hc)
  · rcases told hr with old | rfl
    · exact kept r old
    · exact follows_of_descends entered chain (here ▸ (top takes.holds).mono shape fun _ => heeded)

omit root in
/-- No frame waits for the operation that comes next, and no report came through it. -/
theorem Mindful.next_new {frame : Frame} {below : List Frame} {b : BlockId} {o : OpId}
    {rest : List OpId} {pending : List Position} (stack : s.stack = frame :: below)
    (takes : Takes frame ⟨b, o :: rest⟩ pending) :
    o ∉ live ∧ ∀ r ∈ s.reports, o ∉ r.calls := by
  obtain ⟨top, awaits, _⟩ := mindful.frames stack
  have before := held_of_takes stack takes
  have waits : o ∉ live :=
    awaits.notMem shape orderly.tidy before (List.subset_append_right _ _)
      ((top takes.holds).mem_ops shape)
  refine ⟨waits, fun r hr hc => ?_⟩
  rcases mindful.ended r hr o hc with waiting | ended
  · exact waits waiting
  · exact ended.past _ (before ▸ List.mem_cons_self) List.mem_cons_self

/-- A call is entered. Its frame waits for it, and no report came through it so far. -/
theorem Mindful.enter {frame : Frame} {below : List Frame} {b : BlockId} {o : OpId}
    {rest : List OpId} {pending : List Position} {f : FunctionId} {entry : BlockId}
    (home : p.functionOf? q.site.op = some q.root) (stack : s.stack = frame :: below)
    (takes : Takes frame ⟨b, o :: rest⟩ pending)
    (enters : enterable? p config s.functions (p.op o) = some (f, entry))
    (after : t.stack = { function := f, pending := [fromStart p entry] } ::
      { frame with pending := pending, cursor := some ⟨b, rest⟩ } :: below)
    (functions : t.functions = f :: s.functions)
    (entries : t.entries = ⟨f, frame.function, o⟩ :: s.entries)
    (reports : t.reports = s.reports) (shift : Shift p s t) :
    Mindful p config q start (o :: live) t := by
  obtain ⟨top, awaits, chain, silent⟩ := mindful.frames stack
  have leads := top takes.holds
  obtain ⟨_, unreported⟩ := mindful.next_new shape orderly stack takes
  obtain ⟨enters, first, new⟩ := mayEnter_of_enterable? enters
  have other : f ≠ q.root := fun same => new (same ▸ orderly.root_mem)
  have heeded {x : OpId} (heeded : Heeded p config q live s x) :
      Heeded p config q (o :: live) t x := by
    refine heeded.later (functions ▸ List.subset_cons_self _ _) (fun mem => ?_) fun r hr =>
      .inl (reports ▸ hr)
    rcases List.mem_cons.mp mem with rfl | waiting
    · exact new (heeded.passed.taken f ⟨enters, other⟩)
    · exact heeded.returned waiting
  obtain ⟨entered, told⟩ := mindful.leads_later shape heeded
  refine ⟨fun stack' => ?_, ?_, ?_, reports ▸ told⟩
  · obtain ⟨rfl, rfl⟩ := List.cons.inj (after.symm.trans stack')
    refine ⟨fun holds => ?_,
      .cons rfl (leads.mono shape fun _ => heeded) (fun x hx => ?_) (awaits.mono shape heeded), ?_,
      ?_⟩
    · rcases holds with hand | later
      · cases hand
      · rw [List.mem_singleton.mp later]
        refine ⟨_, [], .entry ?_ first, .refl, List.forall_mem_nil _⟩
        rw [home]
        exact fun same => other (Option.some.inj same).symm
    · exact (top (takes.holds_pending hx)).mono shape fun _ => heeded
    · rw [entries, liveChain_cons, List.reverse_cons]
      exact (chain.mono (List.subset_cons_self _ _)).call (e := ⟨f, frame.function, o⟩)
        List.mem_cons_self
    · rw [reports]
      refine .inr ⟨unreported, ?_⟩
      cases awaits with
      | nil => exact trivial
      | cons => exact silent
  · rw [entries]
    exact List.forall_mem_cons.mpr ⟨⟨b, rest, leads.mono shape fun _ => heeded⟩, entered⟩
  · rw [reports]
    exact mindful.ended_shift shape root orderly shift fun _ _ mem =>
      .inl (List.mem_cons_of_mem _ mem)

/-- A function is left. The call for which its caller waited is over if something was found, and
else it is passed over. -/
theorem Mindful.leave {frame caller next : Frame} {below : List Frame}
    (stack : s.stack = frame :: caller :: below) (idle : todo frame = [])
    (after : t.stack = next :: below) (function : next.function = caller.function)
    (pending : next.pending = caller.pending)
    (goesOn : (frame.found = false ∧ next = caller) ∨ (next.found = true ∧ next.cursor = none))
    (functions : t.functions = s.functions) (entries : t.entries = s.entries)
    (reports : t.reports = s.reports)
    (blocks : t.blocks = s.blocks) (shift : Shift p s t) :
    ∃ live, Mindful p config q start live t := by
  obtain ⟨_, awaits, chain, silent⟩ := mindful.frames stack
  cases awaits with
  | @cons _ _ b c rest live hand leads row deeper =>
  have before : held s.stack = ⟨b, rest⟩ :: (caller.pending ++ held below) := by
    rw [stack, held_cons, idle, List.nil_append]
    exact held_of_takes (s := { s with stack := caller :: below }) rfl (.hand hand)
  have mem := leads.mem_ops shape
  have waits : c ∉ live :=
    deeper.notMem shape orderly.tidy before (List.subset_append_right _ _) mem
  have heeded {o : OpId} (heeded : Heeded p config q (c :: live) s o) :
      Heeded p config q live t o :=
    heeded.later (functions ▸ List.Subset.refl _) (fun mem =>
      heeded.returned (List.mem_cons_of_mem _ mem))
      fun r hr => .inl (reports ▸ hr)
  have called : Passed p config q s c :=
    orderly.passed_of_descends chain (List.mem_reverse.mpr List.mem_cons_self)
  have quiet (nothing : frame.found = false) :
      (∀ r ∈ s.reports, c ∉ r.calls) ∧ Silent s.reports (caller :: below) live :=
    silent.resolve_left (by rw [nothing]; exact Bool.noConfusion)
  obtain ⟨entered, told⟩ := mindful.leads_later shape heeded
  refine ⟨live, fun stack' => ?_, entries ▸ entered, ?_, reports ▸ told⟩
  · obtain ⟨rfl, rfl⟩ := List.cons.inj (after.symm.trans stack')
    refine ⟨fun {position} holds => ?_, deeper.mono shape heeded, ?_, ?_⟩
    · rw [function]
      rcases holds with taken | later
      · rcases goesOn with ⟨nothing, rfl⟩ | ⟨_, ended⟩
        · obtain rfl := Option.some.inj (hand.symm.trans taken)
          refine (leads.mono shape fun _ => heeded).pass ⟨?_, waits, reports ▸ (quiet nothing).1⟩
          exact ⟨called.running, fun g enters => functions ▸ called.taken g enters⟩
        · rw [ended] at taken
          cases taken
      · exact (row position (pending ▸ later)).mono shape fun _ => heeded
    · rw [entries, liveChain_cons, function, ← liveChain_cons]
      rw [List.reverse_cons, liveChain_cons] at chain
      exact chain.above (by simp)
    · rw [reports]
      cases deeper with
      | nil => exact trivial
      | cons =>
        rcases goesOn with ⟨nothing, rfl⟩ | ⟨found, _⟩
        · exact (quiet nothing).2
        · exact .inl found
  · rw [reports]
    refine mindful.ended_shift shape root orderly shift fun {r x} hr hx waiting => ?_
    rcases List.mem_cons.mp waiting with rfl | waiting
    · rcases goesOn with ⟨nothing, rfl⟩ | ⟨_, ended⟩
      · exact absurd hx ((quiet nothing).1 r hr)
      · refine .inr (.of_drop shape orderly.tidy before ?_ blocks mem)
        rw [after, held_cons, todo, ended, pending]
        rfl
    · exact .inl waiting

/-- Every move of a running search keeps it mindful, unless it uses up the steps. -/
theorem Mindful.step (home : p.functionOf? q.site.op = some q.root) (move : Move p config q s t)
    (on : t.truncated = false) :
    ∃ live, Mindful p config q start live t := by
  have shift := move.shift
  cases move with
  | @finish frame stack hand row =>
    have heeded {o : OpId} (heeded : Heeded p config q live s o) :
        Heeded p config q live { s with stack := [] } o :=
      heeded.later (List.Subset.refl _) heeded.returned fun r hr => .inl hr
    obtain ⟨entered, told⟩ := mindful.leads_later shape heeded
    exact ⟨live, fun h => (List.cons_ne_nil _ _ h.symm).elim, entered,
      mindful.ended_shift shape root orderly shift fun _ _ => .inl, told⟩
  | resume stack hand row nothing =>
    exact mindful.leave shape root orderly stack (todo_eq_nil.mpr ⟨hand, row⟩) rfl rfl rfl
      (.inl ⟨nothing, rfl⟩) rfl rfl
      rfl rfl
      shift
  | cut stack hand row =>
    exact mindful.leave shape root orderly stack (todo_eq_nil.mpr ⟨hand, row⟩) rfl rfl rfl
      (.inr ⟨rfl, rfl⟩) rfl rfl
      rfl rfl
      shift
  | @endBlock frame below b pending stack takes =>
    refine ⟨live, mindful.stay shape root orderly stack rfl rfl rfl rfl rfl rfl shift fun holds =>
      ?_⟩
    rcases holds with hand | later
    · cases hand
    · have top {position : Position} (holds : Holds frame position) :=
        (mindful.frames stack).top holds
      rcases List.mem_append.mp later with begun | old
      · obtain ⟨succ, fresh, rfl⟩ := List.mem_map.mp begun
        exact (top takes.holds).jump (List.mem_filter.mp fresh).1
      · exact top (takes.holds_pending old)
  | exhaust => cases on
  | report stack takes _ found =>
    exact ⟨live, mindful.report shape root orderly stack takes (acquires_of_find? found).2 rfl rfl
      rfl rfl shift⟩
  | release stack takes =>
    refine ⟨live, mindful.stay shape root orderly stack rfl rfl rfl rfl rfl rfl shift fun holds =>
      ?_⟩
    rcases holds with hand | later
    · cases hand
    · exact (mindful.frames stack).top (takes.holds_pending later)
  | @enter _ _ _ o _ _ _ _ stack takes _ _ _ enters =>
    exact ⟨o :: live, mindful.enter shape root orderly home stack takes enters rfl rfl rfl
      rfl shift⟩
  | @pass frame below b o rest pending stack takes _ unfound kept enters =>
    refine ⟨live, mindful.stay shape root orderly stack rfl rfl rfl rfl rfl rfl shift fun holds =>
      ?_⟩
    obtain ⟨top, awaits, _⟩ := mindful.frames stack
    rcases holds with hand | later
    · obtain rfl := Option.some.inj hand
      obtain ⟨waits, unreported⟩ := mindful.next_new shape orderly stack takes
      refine (top takes.holds).pass ⟨⟨not_halts unfound kept, fun g called => ?_⟩, waits,
        unreported⟩
      exact mem_of_enterable? enters called.toMayEnter
    · exact top (takes.holds_pending later)

end Moves

theorem mindful_startSearch (home : p.functionOf? q.site.op = some q.root) {b : BlockId}
    (mem : q.site.op ∈ (p.block b).ops) :
    Mindful p config q start [] (p.startSearch q.site q.root b) where
  frames stack := by
    obtain ⟨before, ops⟩ := Program.split_at_first mem
    obtain ⟨rfl, rfl⟩ := List.cons.inj stack
    refine ⟨fun holds => ?_, .nil, .root, trivial⟩
    rcases holds with hand | later
    · cases hand
    · rw [List.mem_singleton.mp later]
      exact ⟨_, [], .after home ops, .refl, List.forall_mem_nil _⟩
  entered := List.forall_mem_nil _
  ended := List.forall_mem_nil _
  reports := List.forall_mem_nil _

/-- An operation that ends no path and that no report came through. -/
def Unreported (group : List LockSite) (releases : List OpId) (reports : List Report)
    (o : OpId) : Prop :=
  ¬ Halts group releases o ∧ ∀ r ∈ reports, o ∉ r.calls

theorem Mindful.follows (shape : p.Shape) (mindful : Mindful p config q start live s) :
    ∀ r ∈ s.reports, r.Follows p q.site (Unreported q.members q.releases s.reports) :=
  fun r hr => (mindful.reports r hr).mono shape fun _ heeded =>
    ⟨heeded.passed.running, heeded.unreported⟩

/-- The reports of a run follow paths over unreported operations, also if it is cut short. -/
theorem follows_run (shape : p.Shape) (home : p.functionOf? q.site.op = some q.root)
    (root : (p.block start.block).function = q.root) (begins : Orderly p config q start s)
    (mindful : Mindful p config q start live s) (n : Nat) :
    ∀ r ∈ (run p config q n s).reports,
      r.Follows p q.site (Unreported q.members q.releases (run p config q n s).reports) := by
  refine (run_invariant (fun s => Orderly p config q start s ∧
    (s.truncated = false → ∃ live, Mindful p config q start live s) ∧
    ∀ r ∈ s.reports, r.Follows p q.site (Unreported q.members q.releases s.reports)) ?_ n
    ⟨begins, fun _ => ⟨live, mindful⟩, mindful.follows shape⟩).2.2
  intro s t ⟨orderly, attends, told⟩ running move
  obtain ⟨live, mindful⟩ := attends running
  refine ⟨orderly.step shape home root running move, mindful.step shape root orderly home move, ?_⟩
  cases on : t.truncated with
  | false =>
    obtain ⟨live, mindful⟩ := mindful.step shape root orderly home move on
    exact mindful.follows shape
  | true =>
    cases move with
    | exhaust => exact told
    | finish | resume | cut | endBlock | report | release | enter | pass =>
      cases running.symm.trans on

end Search

/-! ## Queries -/

/-- An operation of a function of a loaded program is one of the program's. -/
theorem Program.mem_allOps_of_load {read : Sexp.Reader} {file text : String} {p : Program}
    (loaded : Program.loadWith read file text = .ok p) {o : OpId} {f : FunctionId}
    (inside : p.functionOf? o = some f) : o ∈ p.allOps := by
  have shape := Program.shape_of_load loaded
  obtain ⟨b, block, _⟩ := Option.map_eq_some_iff.mp inside
  rw [allOps_eq]
  exact List.mem_flatMap.mpr ⟨b, mem_blockIds_of_load loaded (shape.mem_blocks_of_op block),
    shape.mem_of_op block⟩

open Search (Unreported) in
/-- A query about a site that stands in a block gives a result, and its reports are reached by paths
on which the lock is neither taken again nor released and which pass over no call that a report came
through. If each function to which a chain goes down is called by one operation only, the paths pass
over no call of any of them. -/
theorem query_heeds_calls {read : Sexp.Reader} {file text : String} {p : Program}
    (loaded : Program.loadWith read file text = .ok p) (config : Config)
    {site : LockSite} {b : BlockId} (attached : (p.op site.op).block = some b)
    (group : List LockSite) (releases : List OpId) :
    ∃ result, p.query config site group releases = .ok result ∧
      (∀ r ∈ result.reports, r.Follows p site (Unreported group releases result.reports)) ∧
      ((∀ {g o o'}, (∃ r ∈ result.reports, g ∈ r.chain.tail) → o ∈ p.allOps → o' ∈ p.allOps →
          (p.op o).target? = some g → (p.op o').target? = some g → o = o') →
        ∀ r ∈ result.reports, r.Follows p site fun o =>
          ¬ Halts group releases o ∧ ¬ CallsReported p result.reports o) := by
  have shape := Program.shape_of_load loaded
  obtain ⟨result, answered⟩ := Program.query_answers config attached group releases
  have follows : ∀ r ∈ result.reports,
      r.Follows p site (Unreported group releases result.reports) := by
    by_cases empty : group = []
    · rw [empty] at answered
      obtain rfl := Except.ok.inj answered
      exact List.forall_mem_nil _
    · rw [Program.query_of_block attached empty] at answered
      obtain rfl := Except.ok.inj answered
      let q := p.queryAt site group releases b
      have home : p.functionOf? q.site.op = some q.root := Program.functionOf?_of_block attached
      have mem : q.site.op ∈ (p.block b).ops := shape.mem_of_op attached
      obtain ⟨before, ops⟩ := Program.split_at_first mem
      intro r hr
      refine (Search.follows_run shape home rfl (Search.orderly_startSearch home ops rfl)
        (Search.mindful_startSearch home mem) p.moveBound r hr).mono shape fun _ ⟨running,
          unreported⟩ => ?_
      exact ⟨mt halts_queryMembers.mpr running, unreported⟩
  refine ⟨result, answered, follows, fun single r hr => ?_⟩
  refine (follows r hr).mono shape fun {o f} inside ⟨running, unreported⟩ => ?_
  refine ⟨running, fun ⟨told, ht, g, deeper, target⟩ => ?_⟩
  -- the chain of the report goes down to the function by a call of its own, the only one there is
  have bornOut := bornOut_of_query shape attached answered ht
  obtain ⟨i, place⟩ := List.mem_iff_getElem?.mp deeper
  rw [List.getElem?_tail] at place
  have bound : i < told.calls.length := by
    have := (List.getElem?_eq_some_iff.mp place).1
    have := bornOut.calls_length
    omega
  obtain ⟨c, hc⟩ : ∃ c, told.calls[i]? = some c := ⟨_, List.getElem?_eq_getElem bound⟩
  obtain ⟨caller, g', _, _, next, stands, enters, _⟩ := bornOut.call hc
  obtain rfl : g = g' := Option.some.inj (place.symm.trans next)
  have same : o = c := single ⟨told, ht, deeper⟩ (Program.mem_allOps_of_load loaded inside)
    (Program.mem_allOps_of_load loaded stands) target enters.target
  exact unreported told ht (same ▸ List.mem_of_getElem? hc)

/-- A lock that `outer` holds when `inner`, which it calls once, takes it again. -/
def sunkText : String := "(module sunk (global m (ptr i64))
(function \"outer\" (params) (block a (call g i8 \"take\" m) (call _ void \"inner\") (ret)))
(function \"inner\" (params) (block a (call g i8 \"take\" m) (ret))))"

set_option maxRecDepth 4000 in
theorem query_heeds_calls_sunk : ∃ p result, Program.load "sunk" sunkText = .ok p ∧
    (p.op 5).block = some 4 ∧
    p.query nestedConfig (nestedSite 5) [nestedSite 11] [] = .ok result ∧
    result.reports.map (·.chain) = [[2, 3]] ∧
    ∀ r ∈ result.reports, r.Follows p (nestedSite 5) fun o =>
      ¬ Halts [nestedSite 11] [] o ∧ ¬ CallsReported p result.reports o := by
  obtain ⟨p, loaded, checked⟩ : ∃ p, Program.load "sunk" sunkText = .ok p ∧
      decide ((p.op 5).block = some 4 ∧
        ((p.query nestedConfig (nestedSite 5) [nestedSite 11] []).toOption.map fun result =>
          result.reports.map (·.chain)) = some [[2, 3]] ∧
        ∀ o ∈ p.allOps, (p.op o).target? = some 3 → o = 7) = true :=
    Program.exists_of_load rfl (by decide +kernel)
  obtain ⟨attached, found, only⟩ := of_decide_eq_true checked
  obtain ⟨result, answered, _, single⟩ :=
    @query_heeds_calls _ _ _ p loaded nestedConfig (nestedSite 5) 4 attached [nestedSite 11] []
  rw [answered] at found
  have chains : result.reports.map (·.chain) = [[2, 3]] := Option.some.inj found
  refine ⟨p, result, loaded, attached, answered, chains, single ?_⟩
  rintro g o o' ⟨r, hr, deeper⟩ ho ho' target target'
  have chain : r.chain ∈ [[2, 3]] := chains ▸ List.mem_map_of_mem hr
  rw [List.mem_singleton.mp chain] at deeper
  obtain rfl : g = 3 := List.mem_singleton.mp deeper
  rw [only o ho target, only o' ho' target']

/-- A lock that `outer` holds on two ways. On each it calls `inner`, which takes the lock again, and
then takes it itself. -/
def forkedText : String := "(module forked (global m (ptr i64))
(function \"outer\" (params) (block a (call g i8 \"take\" m) (condbr 1 b c))
  (block b (call _ void \"inner\") (call h i8 \"take\" m) (ret))
  (block c (call _ void \"inner\") (call k i8 \"take\" m) (ret)))
(function \"inner\" (params) (block a (call g i8 \"take\" m) (ret))))"

/-- The control flow passes over all that stands before a position of another block than the one
where it began. -/
theorem Program.Flow.passes {p : Program} {start position : Position} {os : List OpId}
    (flow : p.Flow start os position) :
    start.block = position.block ∨
    ∃ before, (p.block position.block).ops = before ++ position.rest ∧ before ⊆ os := by
  induction flow with
  | refl => exact .inl rfl
  | @pass os b o rest _ ih =>
    rcases ih with here | ⟨before, ops, passed⟩
    · exact .inl here
    · refine .inr ⟨before ++ [o], by rw [ops]; simp, ?_⟩
      exact List.append_subset.mpr ⟨List.subset_append_of_subset_left _ passed,
        List.subset_append_right _ _⟩
  | jump => exact .inr ⟨[], rfl, List.nil_subset _⟩

set_option maxRecDepth 4000 in
/-- The acquisition after the second call of `inner` is reported although every path to it passes
over that call. The one after the first call is not. -/
theorem query_passes_forked : ∃ p result, Program.load "forked" forkedText = .ok p ∧
    p.query nestedConfig (nestedSite 5) [nestedSite 10, nestedSite 15, nestedSite 21] [] =
      .ok result ∧
    result.truncated = false ∧ result.reports.map (fun r => (r.second.op, r.calls)) =
      [(21, [9]), (15, [])] ∧
    ∃ r ∈ result.reports, r.second.op = 15 ∧
      ¬ r.Follows p (nestedSite 5) fun o =>
        ¬ Halts [nestedSite 10, nestedSite 15, nestedSite 21] [] o ∧
        ¬ CallsReported p result.reports o := by
  obtain ⟨p, loaded, checked⟩ : ∃ p, Program.load "forked" forkedText = .ok p ∧
      decide ((p.op 5).block = some 4 ∧ (p.op 15).block = some 13 ∧ (p.block 4).function = 2 ∧
        (p.block 13).ops = [14, 15, 17] ∧ (p.op 14).target? = some 3 ∧
        ((p.query nestedConfig (nestedSite 5)
            [nestedSite 10, nestedSite 15, nestedSite 21] []).toOption.map fun result =>
          (result.truncated, result.reports.map fun r => (r.second.op, r.chain, r.calls))) =
        some (false, [(21, [2, 3], [9]), (15, [2], [])])) = true :=
    Program.exists_of_load rfl (by decide +kernel)
  obtain ⟨attached, block, home, ops, target, found⟩ := of_decide_eq_true checked
  obtain ⟨result, answered⟩ := @Program.query_answers p nestedConfig (nestedSite 5) 4 attached
    [nestedSite 10, nestedSite 15, nestedSite 21] []
  rw [answered] at found
  obtain ⟨whole, told⟩ := Prod.mk.inj (Option.some.inj found)
  have report {x : OpId × List FunctionId × List OpId}
      (mem : x ∈ [(21, [2, 3], [9]), (15, [2], [])]) :
      ∃ r ∈ result.reports, (r.second.op, r.chain, r.calls) = x :=
    List.mem_map.mp (told.symm ▸ mem)
  obtain ⟨inner, innerMem, called⟩ := report List.mem_cons_self
  obtain ⟨r, mem, here⟩ := report (List.mem_cons_of_mem _ List.mem_cons_self)
  simp only [Prod.mk.injEq] at called here
  have rows := congrArg (List.map fun x => (x.1, x.2.2)) told
  rw [List.map_map] at rows
  refine ⟨p, result, loaded, answered, whole, rows, r, mem, here.1, fun follows => ?_⟩
  have shape := Program.shape_of_load loaded
  obtain ⟨f, b, rest, last, leads⟩ := follows.arrival
  rw [here.1] at leads
  rw [here.2.1] at last
  obtain rfl : f = 2 := (Option.some.inj last).symm
  obtain rfl : b = 13 := Option.some.inj ((shape.op_of_mem (leads.mem_ops shape)).symm.trans block)
  obtain ⟨start, os, opens, flow, free⟩ := leads
  -- the way begins in the block of the site
  have begins : start.block = 4 := by
    cases opens with
    | after _ split =>
      exact Option.some.inj
        ((shape.op_of_mem (split ▸ List.mem_append_right _ List.mem_cons_self)).symm.trans attached)
    | entry other =>
      exact absurd ((Program.functionOf?_of_block attached).trans (congrArg some home)) other
  rcases flow.passes with same | ⟨before, split, passed⟩
  · exact absurd (show (4 : BlockId) = 13 from begins.symm.trans same) (by decide)
  · rw [ops] at split
    cases before with
    | nil => exact absurd (List.cons.inj split).1 (by decide)
    | cons o before =>
      obtain rfl := (List.cons.inj split).1
      refine (free 14 (passed List.mem_cons_self)).2 ⟨inner, innerMem, 3, ?_, target⟩
      rw [called.2.1]
      exact List.mem_singleton.mpr rfl

end Relock
