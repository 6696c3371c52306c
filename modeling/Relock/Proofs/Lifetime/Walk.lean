import Relock.Lifetime.Walk
import Relock.Proofs.Source.Decoder

/-!
# What a walk along uses comes to

`Program.Followed` is the least set of values that has the seeds and is closed under the uses that
hand a value on; `Program.Meets` says of a use of such a value what becomes of the value there. A
walk gives the two exactly (`Walk.Exact`): it follows every value of the set and no other, and its
buckets hold the operations met with each fate.

The walk is a queue with a bound on its rounds. `Tracks` is what each round keeps: what was visited
is accounted for, and what is still owed stands in the queue. The bound is never reached, since each
value is visited once and puts no more into the queue than it has uses.

The lifetime of a lock site is made of two such walks, the second of which starts from what the
first gives up and passes over the operations at which it does.
-/

namespace Relock

/-! ## The values followed -/

section Spec

variable (p : Program) (table : PatternTable) (kind : WalkKind) (skipped : OpId → Prop)
    (seeds : ValueId → Prop)

/-- The values that a walk follows: the seeds, and what a followed value is handed on to by a use
that is not skipped. -/
inductive Program.Followed : ValueId → Prop
  | seed {v} : seeds v → Followed v
  | moved {v w} {use : Use} : Followed v → use ∈ (p.value v).uses → ¬ skipped use.op →
      p.step table kind use = ⟨.moved, some w⟩ → Followed w

/-- A walk meets a use of a followed value, and this becomes of the value there. -/
structure Program.Meets (use : Use) (t : Transition) : Prop where
  followed : ∃ v, p.Followed table kind skipped seeds v ∧ use ∈ (p.value v).uses
  edge : ¬ skipped use.op
  step : p.step table kind use = t

/-- An operation at which a walk meets a fate. -/
def Program.MeetsFate (fate : Fate) (o : OpId) : Prop :=
  ∃ use t, p.Meets table kind skipped seeds use t ∧ t.fate = fate ∧ use.op = o

/-- A walk that has followed what there is to follow, and no more. -/
structure Walk.Exact (walk : Walk) : Prop where
  visited : ∀ v, v ∈ walk.visited ↔ p.Followed table kind skipped seeds v
  bucket : ∀ fate o, o ∈ walk.bucket fate ↔ p.MeetsFate table kind skipped seeds fate o
  handedOver : ∀ v, v ∈ walk.handedOver ↔
    ∃ use, p.Meets table kind skipped seeds use ⟨.unwrapped, some v⟩

end Spec

/-! ## One use -/

/-- Only a value that is handed on, or a guard that is taken out of its result, goes any further. -/
def Transition.Proper (t : Transition) : Prop := ∀ v, t.next = some v → t.fate = .moved ∨
    t.fate = .unwrapped

namespace Program

variable {p : Program} {table : PatternTable} {kind : WalkKind} {skip : List OpId}
    {seeds : List ValueId}

theorem proper_end (fate : Fate) : Transition.Proper ⟨fate, none⟩ := by
  intro v h
  cases h

theorem proper_moveTo (target : Option ValueId) : (moveTo target).Proper := by
  cases target with
  | none => exact proper_end _
  | some w => exact fun _ _ => .inl rfl

theorem proper_stepCall (op : Operation) : (p.stepCall table kind op).Proper := by
  unfold stepCall
  split
  next => exact proper_end _
  next =>
    split
    next =>
      split
      next => exact fun _ _ => .inr rfl
      next => exact proper_end _
    next => exact proper_moveTo _
    all_goals exact proper_end _

theorem proper_step (use : Use) : (p.step table kind use).Proper := by
  simp only [step]
  split
  next => exact proper_stepCall _
  next => exact proper_stepCall _
  next =>
    split
    next => exact proper_end _
    next => exact proper_moveTo _
  next => exact proper_end _
  next =>
    split
    next => exact proper_end _
    next => exact proper_moveTo _
  next => exact proper_moveTo _
  next => exact proper_moveTo _
  next => exact proper_moveTo _
  next => exact proper_moveTo _
  next => exact proper_moveTo _
  next => exact proper_moveTo _
  next => exact proper_end _
  next => exact proper_end _

theorem mem_edgesOf {v : ValueId} {use : Use} :
    use ∈ p.edgesOf skip v ↔ use ∈ (p.value v).uses ∧ use.op ∉ skip := by
  simp only [edgesOf, List.mem_filter, decide_eq_true_eq]

/-! ## What each round of a walk keeps -/

/-- A walk on the way: what was visited is accounted for, and what is owed stands in the queue. -/
structure Tracks (p : Program) (table : PatternTable) (kind : WalkKind) (skip : List OpId)
    (seeds : List ValueId) (queue : List ValueId) (walk : Walk) : Prop where
  followed : ∀ v, v ∈ walk.visited ∨ v ∈ queue → p.Followed table kind (· ∈ skip) (· ∈ seeds) v
  seeded : ∀ v ∈ seeds, v ∈ walk.visited ∨ v ∈ queue
  moved : ∀ v ∈ walk.visited, ∀ use ∈ p.edgesOf skip v, ∀ w,
    p.step table kind use = ⟨.moved, some w⟩ → w ∈ walk.visited ∨ w ∈ queue
  edges : ∀ fate o, (fate, o) ∈ walk.edges ↔
    ∃ v ∈ walk.visited, ∃ use ∈ p.edgesOf skip v, (p.step table kind use).fate = fate ∧ use.op = o
  handedOver : ∀ w, w ∈ walk.handedOver ↔
    ∃ v ∈ walk.visited, ∃ use ∈ p.edgesOf skip v, p.step table kind use = ⟨.unwrapped, some w⟩

theorem tracks_start : p.Tracks table kind skip seeds seeds {} where
  followed v h := .seed (h.resolve_left List.not_mem_nil)
  seeded _ h := .inr h
  moved v h := absurd h List.not_mem_nil
  edges fate o := by
    constructor
    · intro h
      exact absurd h List.not_mem_nil
    · rintro ⟨v, h, _⟩
      exact absurd h List.not_mem_nil
  handedOver w := by
    constructor
    · intro h
      exact absurd h List.not_mem_nil
    · rintro ⟨v, h, _⟩
      exact absurd h List.not_mem_nil

/-- A value that was visited before is left out of the queue. -/
theorem Tracks.leave {v : ValueId} {queue : List ValueId} {walk : Walk}
    (tracks : p.Tracks table kind skip seeds (v :: queue) walk) (known : v ∈ walk.visited) :
    p.Tracks table kind skip seeds queue walk := by
  have still {w : ValueId} (h : w ∈ walk.visited ∨ w ∈ v :: queue) : w ∈ walk.visited ∨
      w ∈ queue := by
    rcases h with visited | owed
    · exact .inl visited
    · rcases List.mem_cons.mp owed with rfl | owed
      · exact .inl known
      · exact .inr owed
  exact {
    followed := fun w h => tracks.followed w (h.imp_right (List.mem_cons_of_mem v))
    seeded := fun w h => still (tracks.seeded w h)
    moved := fun u hu use huse w step => still (tracks.moved u hu use huse w step)
    edges := tracks.edges
    handedOver := tracks.handedOver }

/-- The values that the uses of a value hand it on to. -/
def nextOf (p : Program) (table : PatternTable) (kind : WalkKind) (skip : List OpId) (v : ValueId) :
    List ValueId :=
  (((p.edgesOf skip v).map fun use => (use.op, p.step table kind use)).filter fun s =>
    s.2.continues).filterMap
    fun s => s.2.next

/-- The walk after a new value. -/
def visit (p : Program) (table : PatternTable) (kind : WalkKind) (skip : List OpId) (v : ValueId)
    (walk : Walk) : Walk :=
  let steps := (p.edgesOf skip v).map fun use => (use.op, p.step table kind use)
  { visited := v :: walk.visited,
    edges := walk.edges ++ steps.map fun s => (s.2.fate, s.1),
    handedOver := walk.handedOver ++ (steps.filter fun s => !s.2.continues).filterMap fun s =>
      s.2.next }

theorem follow_cons (fuel : Nat) (v : ValueId) (queue : List ValueId) (walk : Walk) :
    p.follow table kind skip (fuel + 1) (v :: queue) walk =
      if v ∈ walk.visited then p.follow table kind skip fuel queue walk
      else p.follow table kind skip fuel (queue ++ p.nextOf table kind skip v)
      (p.visit table kind skip v walk) := rfl

theorem mem_nextOf {v w : ValueId} :
    w ∈ p.nextOf table kind skip v ↔
      ∃ use ∈ p.edgesOf skip v, p.step table kind use = ⟨.moved, some w⟩ := by
  simp only [nextOf, List.mem_filterMap, List.mem_filter, List.mem_map, Transition.continues,
    decide_eq_true_eq]
  constructor
  · rintro ⟨_, ⟨⟨use, mem, rfl⟩, moved⟩, next⟩
    exact ⟨use, mem, by rw [← moved, ← next]⟩
  · rintro ⟨use, mem, step⟩
    exact ⟨_, ⟨⟨use, mem, rfl⟩, by rw [step]⟩, by rw [step]⟩

theorem mem_edges_visit {v : ValueId} {walk : Walk} {fate : Fate} {o : OpId} :
    (fate, o) ∈ (p.visit table kind skip v walk).edges ↔ (fate, o) ∈ walk.edges ∨
      ∃ use ∈ p.edgesOf skip v, (p.step table kind use).fate = fate ∧ use.op = o := by
  simp only [visit, List.mem_append, List.mem_map, List.map_map, Function.comp, Prod.mk.injEq]

theorem mem_handedOver_visit {v w : ValueId} {walk : Walk} :
    w ∈ (p.visit table kind skip v walk).handedOver ↔ w ∈ walk.handedOver ∨
      ∃ use ∈ p.edgesOf skip v, p.step table kind use = ⟨.unwrapped, some w⟩ := by
  simp only [visit, List.mem_append, List.mem_filterMap, List.mem_filter, List.mem_map,
    Transition.continues, Bool.not_eq_true', decide_eq_false_iff_not]
  refine or_congr_right ⟨?_, ?_⟩
  · rintro ⟨_, ⟨⟨use, mem, rfl⟩, stops⟩, next⟩
    have given := (proper_step use w next).resolve_left stops
    exact ⟨use, mem, by rw [← given, ← next]⟩
  · rintro ⟨use, mem, step⟩
    exact ⟨_, ⟨⟨use, mem, rfl⟩, by rw [step]; exact Fate.noConfusion⟩, by rw [step]⟩

/-- A new value is visited and what it is handed on to joins the queue. -/
theorem Tracks.visit {v : ValueId} {queue : List ValueId} {walk : Walk}
    (tracks : p.Tracks table kind skip seeds (v :: queue) walk) :
    p.Tracks table kind skip seeds (queue ++ p.nextOf table kind skip v)
    (p.visit table kind skip v walk) := by
  have here : p.Followed table kind (· ∈ skip) (· ∈ seeds) v :=
    tracks.followed v (.inr List.mem_cons_self)
  have still {w : ValueId} (h : w ∈ walk.visited ∨ w ∈ v :: queue) :
      w ∈ v :: walk.visited ∨ w ∈ queue ++ p.nextOf table kind skip v := by
    rcases h with visited | owed
    · exact .inl (List.mem_cons_of_mem v visited)
    · rcases List.mem_cons.mp owed with rfl | owed
      · exact .inl List.mem_cons_self
      · exact .inr (List.mem_append_left _ owed)
  refine ⟨?_, ?_, ?_, ?_, ?_⟩
  · rintro w (visited | owed)
    · rcases List.mem_cons.mp visited with rfl | visited
      · exact here
      · exact tracks.followed w (.inl visited)
    · rcases List.mem_append.mp owed with owed | next
      · exact tracks.followed w (.inr (List.mem_cons_of_mem v owed))
      · obtain ⟨use, mem, step⟩ := mem_nextOf.mp next
        obtain ⟨used, edge⟩ := mem_edgesOf.mp mem
        exact .moved here used edge step
  · intro w seed
    exact still (tracks.seeded w seed)
  · intro u visited use mem w step
    rcases List.mem_cons.mp visited with rfl | visited
    · exact .inr (List.mem_append_right _ (mem_nextOf.mpr ⟨use, mem, step⟩))
    · exact still (tracks.moved u visited use mem w step)
  · intro fate o
    rw [mem_edges_visit, tracks.edges, or_comm]
    simp only [Program.visit, List.mem_cons, exists_eq_or_imp]
  · intro w
    rw [mem_handedOver_visit, tracks.handedOver, or_comm]
    simp only [Program.visit, List.mem_cons, exists_eq_or_imp]

/-! ## The bound on the rounds -/

theorem uses_length (p : Program) (v : ValueId) :
    (p.value v).uses.length = match p.node v with
      | .value value => value.uses.length
      | _ => 0 := by
  unfold Program.value Program.value?
  cases p.node v <;> rfl

/-- The uses of all values, by the numbers of the values. -/
theorem useCount_eq (p : Program) :
    p.useCount = total ((List.range p.nodes.size).map fun v => (p.value v).uses.length) := by
  have sum := p.foldl_nodes fun node => match node with
    | .value value => value.uses.length
    | _ => 0
  simp only [uses_length, ← sum]
  unfold useCount
  congr 1
  funext n node
  cases node <;> rfl

theorem nextOf_length_le (p : Program) (table : PatternTable) (kind : WalkKind) (skip : List OpId)
    (v : ValueId) :
    (p.nextOf table kind skip v).length ≤ (p.value v).uses.length := by
  have few : (p.nextOf table kind skip v).length ≤ (p.edgesOf skip v).length := by
    refine Nat.le_trans (List.length_filterMap_le _ _) (Nat.le_trans (List.length_filter_le _ _) ?_)
    exact Nat.le_of_eq (List.length_map _)
  exact Nat.le_trans few (List.length_filter_le _ _)

/-- What a walk can still take: a round for each value of the queue, and for each use of a value
that was not visited. -/
def roundsLeft (p : Program) (queue : List ValueId) (walk : Walk) : Nat :=
  queue.length + unseen (fun v => (p.value v).uses.length) (List.range p.nodes.size) walk.visited

theorem roundsLeft_visit (p : Program) (table : PatternTable) (kind : WalkKind) (skip : List OpId)
    {v : ValueId} (queue : List ValueId) {walk : Walk} (fresh : v ∉ walk.visited) :
    p.roundsLeft (queue ++ p.nextOf table kind skip v) (p.visit table kind skip v walk) <
      p.roundsLeft (v :: queue) walk := by
  have few := p.nextOf_length_le table kind skip v
  simp only [roundsLeft, Program.visit, List.length_append, List.length_cons]
  by_cases inside : v < p.nodes.size
  · have taken :
        unseen (fun v => (p.value v).uses.length) (List.range p.nodes.size) (v :: walk.visited) +
        (p.value v).uses.length = unseen (fun v => (p.value v).uses.length)
          (List.range p.nodes.size) walk.visited :=
      unseen_cons List.nodup_range (List.mem_range.mpr inside) fresh
    omega
  · have none : (p.value v).uses.length = 0 := by
      rw [uses_length, p.node_of_size_le (Nat.le_of_not_lt inside)]
    rw [unseen_cons_of_notMem _ _ (fun h => inside (List.mem_range.mp h))]
    omega

/-- A walk ends with nothing owed. -/
theorem Tracks.follow {fuel : Nat} {queue : List ValueId} {walk : Walk}
    (tracks : p.Tracks table kind skip seeds queue walk) (enough : p.roundsLeft queue walk ≤ fuel) :
    p.Tracks table kind skip seeds [] (p.follow table kind skip fuel queue walk) := by
  induction fuel generalizing queue walk with
  | zero =>
    have empty : queue = [] := List.eq_nil_of_length_eq_zero (by unfold roundsLeft at enough; omega)
    exact empty ▸ tracks
  | succ fuel ih =>
    cases queue with
    | nil => exact tracks
    | cons v queue =>
      rw [follow_cons]
      split
      next known =>
        refine ih (tracks.leave known) ?_
        simp only [roundsLeft, List.length_cons] at enough ⊢
        omega
      next fresh =>
        refine ih tracks.visit ?_
        have less := p.roundsLeft_visit table kind skip queue fresh
        omega

/-! ## Whole walks -/

theorem Tracks.exact {walk : Walk} (tracks : p.Tracks table kind skip seeds [] walk) :
    walk.Exact p table kind (· ∈ skip) (· ∈ seeds) := by
  have ended {v : ValueId} (h : v ∈ walk.visited ∨ v ∈ ([] : List ValueId)) : v ∈ walk.visited :=
    h.resolve_right List.not_mem_nil
  have visited (v : ValueId) : v ∈ walk.visited ↔
      p.Followed table kind (· ∈ skip) (· ∈ seeds) v := by
    constructor
    · intro h
      exact tracks.followed v (.inl h)
    · intro followed
      induction followed with
      | seed seed => exact ended (tracks.seeded _ seed)
      | moved _ used edge step ih =>
        exact ended (tracks.moved _ ih _ (mem_edgesOf.mpr ⟨used, edge⟩) _ step)
  -- a use that a walk met is an edge of a value it visited
  have meets (use : Use) (t : Transition) : p.Meets table kind (· ∈ skip) (· ∈ seeds) use t ↔
      ∃ v ∈ walk.visited, use ∈ p.edgesOf skip v ∧ p.step table kind use = t := by
    constructor
    · rintro ⟨⟨v, followed, used⟩, edge, step⟩
      exact ⟨v, (visited v).mpr followed, mem_edgesOf.mpr ⟨used, edge⟩, step⟩
    · rintro ⟨v, hv, mem, step⟩
      obtain ⟨used, edge⟩ := mem_edgesOf.mp mem
      exact ⟨⟨v, (visited v).mp hv, used⟩, edge, step⟩
  refine ⟨visited, fun fate o => ?_, fun w => ?_⟩
  · have bucket : o ∈ walk.bucket fate ↔ (fate, o) ∈ walk.edges := by
      simp only [Walk.bucket, mem_idSet, List.mem_map, List.mem_filter, decide_eq_true_eq]
      constructor
      · rintro ⟨⟨_, _⟩, ⟨mem, rfl⟩, rfl⟩
        exact mem
      · intro mem
        exact ⟨_, ⟨mem, rfl⟩, rfl⟩
    rw [bucket, tracks.edges, MeetsFate]
    constructor
    · rintro ⟨v, hv, use, mem, is, here⟩
      exact ⟨use, _, (meets use _).mpr ⟨v, hv, mem, rfl⟩, is, here⟩
    · rintro ⟨use, t, met, is, here⟩
      obtain ⟨v, hv, mem, rfl⟩ := (meets use t).mp met
      exact ⟨v, hv, use, mem, is, here⟩
  · rw [tracks.handedOver]
    constructor
    · rintro ⟨v, hv, use, mem, step⟩
      exact ⟨use, (meets use _).mpr ⟨v, hv, mem, step⟩⟩
    · rintro ⟨use, met⟩
      obtain ⟨v, hv, mem, step⟩ := (meets use _).mp met
      exact ⟨v, hv, use, mem, step⟩

/-- A walk from some values follows what there is to follow. -/
theorem walkFrom_exact (p : Program) (table : PatternTable) (kind : WalkKind) (skip : List OpId)
    (seeds : List ValueId) :
    (p.walkFrom table kind skip seeds).Exact p table kind (· ∈ skip) (· ∈ seeds) := by
  refine (tracks_start.follow ?_).exact
  have uses := unseen_le (fun v => (p.value v).uses.length) (List.range p.nodes.size) []
  rw [← useCount_eq] at uses
  simp only [roundsLeft]
  omega

end Program

theorem Walk.Exact.congr {p : Program} {table : PatternTable} {kind : WalkKind}
    {skipped skipped' : OpId → Prop} {seeds seeds' : ValueId → Prop} {walk : Walk}
    (exact : walk.Exact p table kind skipped seeds) (skips : ∀ o, skipped o ↔ skipped' o)
    (starts : ∀ v, seeds v ↔ seeds' v) :
    walk.Exact p table kind skipped' seeds' := by
  obtain rfl : skipped = skipped' := funext fun o => propext (skips o)
  obtain rfl : seeds = seeds' := funext fun v => propext (starts v)
  exact exact

/-! ## Lifetimes -/

namespace Program

variable {p : Program}

theorem not_isBrokenStore (finished : p.Finished) (use : Use) : p.isBrokenStore use = false := by
  have filled := finished.filled use.op
  unfold Bare at filled
  simp only [isBrokenStore]
  cases kind : (p.op use.op).kind with
  | store =>
    rw [kind] at filled
    have enough : ¬ (p.op use.op).operands.length < 2 := filled
    simp only [enough, decide_false, Bool.and_false]
  | _ => rfl

/-- Every use that the walks of a finished program meet has an outcome. -/
theorem not_isBroken (finished : p.Finished) (table : PatternTable) (site : LockSite) :
    (p.lifetime table site).isBroken = false := by
  have met (skip : List OpId) (walk : Walk) : p.metBrokenStore skip walk = false := by
    refine List.any_eq_false.mpr fun v _ => ?_
    rw [List.any_eq_false.mpr fun use _ => ?_]
    · exact Bool.false_ne_true
    · rw [not_isBrokenStore finished use]
      exact Bool.false_ne_true
  unfold lifetime
  split <;> simp only [met, Bool.or_false]

end Program

/-- The result walk of a site starts from its guard if the guard comes wrapped. -/
def LockSite.ResultSeed (site : LockSite) (v : ValueId) : Prop := site.wrapped = true ∧
    v = site.guard

section Spec

variable (p : Program) (table : PatternTable) (site : LockSite)

/-- The guard walk of a site starts from its guard, or from what the uses that unwrap it give up. -/
def Program.GuardSeed (v : ValueId) : Prop :=
  if site.wrapped then ∃ use,
    p.Meets table .result (· = site.op) site.ResultSeed use ⟨.unwrapped, some v⟩
  else v = site.guard

/-- The guard walk of a site skips its own operation and those that unwrap its guard. -/
def Program.GuardSkips (o : OpId) : Prop :=
  o = site.op ∨ p.MeetsFate table .result (· = site.op) site.ResultSeed .unwrapped o

/-- The lifetime of a site's guard: both walks came to their end, and the release set has the
operations at which either of them drops the guard or loses sight of it. -/
structure Lifetime.Exact (lifetime : Lifetime) : Prop where
  whole : lifetime.isBroken = false
  result : lifetime.result.Exact p table .result (· = site.op) site.ResultSeed
  unwrapped : ∀ v, v ∈ lifetime.unwrapped ↔ site.wrapped = true ∧ p.GuardSeed table site v
  guard : lifetime.guard.Exact p table .guard (p.GuardSkips table site) (p.GuardSeed table site)
  releases : ∀ o, o ∈ lifetime.releaseSet ↔
    ∃ fate, (fate = .autoDropped ∨ fate = .manualDropped ∨ fate = .opaqueCall) ∧
    (o ∈ lifetime.result.bucket fate ∨ o ∈ lifetime.guard.bucket fate)

end Spec

theorem Lifetime.mem_releaseSet {lifetime : Lifetime} {o : OpId} : o ∈ lifetime.releaseSet ↔
    ∃ fate, (fate = .autoDropped ∨ fate = .manualDropped ∨ fate = .opaqueCall) ∧
    (o ∈ lifetime.result.bucket fate ∨ o ∈ lifetime.guard.bucket fate) := by
  simp only [releaseSet, bucket, mem_idSet, List.mem_flatMap, List.mem_append, Fate.releases,
    List.mem_cons, List.not_mem_nil, or_false]

/-- The walks of a site whose guard comes bare: the first has nothing to follow. -/
theorem Program.lifetime_bare (p : Program) (table : PatternTable) {site : LockSite}
    (bare : site.wrapped = false) :
    (p.lifetime table site).result.Exact p table .result (· = site.op) site.ResultSeed ∧
    (p.lifetime table site).unwrapped = [] ∧
    (p.lifetime table site).guard.Exact p table .guard (p.GuardSkips table site)
    (p.GuardSeed table site) := by
  have noSeed (v : ValueId) : ¬ site.ResultSeed v :=
    fun seed => Bool.false_ne_true (bare.symm.trans seed.1)
  have result : ({} : Walk).Exact p table .result (· = site.op) site.ResultSeed :=
    (p.walkFrom_exact table .result [site.op] []).congr (fun _ => List.mem_singleton)
      fun v => iff_of_false List.not_mem_nil (noSeed v)
  have guard := p.walkFrom_exact table .guard [site.op] [site.guard]
  simp only [lifetime, bare, Bool.false_eq_true, if_false]
  refine ⟨result, trivial, guard.congr (fun o => ?_) fun v => ?_⟩
  · -- without a result walk no operation unwraps anything
    have none : ¬ p.MeetsFate table .result (· = site.op) site.ResultSeed .unwrapped o :=
      fun met => absurd ((result.bucket .unwrapped o).mpr met) List.not_mem_nil
    rw [List.mem_singleton, GuardSkips, or_iff_left none]
  · rw [List.mem_singleton, GuardSeed, bare]
    exact Iff.rfl

/-- The walks of a site whose guard comes wrapped: the second goes on from what the first gives
up. -/
theorem Program.lifetime_wrapped (p : Program) (table : PatternTable) {site : LockSite}
    (wrapped : site.wrapped = true) :
    (p.lifetime table site).result.Exact p table .result (· = site.op) site.ResultSeed ∧
    (∀ v, v ∈ (p.lifetime table site).unwrapped ↔ p.GuardSeed table site v) ∧
    (p.lifetime table site).guard.Exact p table .guard (p.GuardSkips table site)
    (p.GuardSeed table site) := by
  have result : (p.walkFrom table .result [site.op] [site.guard]).Exact p table .result
      (· = site.op) site.ResultSeed :=
    (p.walkFrom_exact table .result [site.op] [site.guard]).congr (fun _ => List.mem_singleton)
      fun v => by
      rw [List.mem_singleton, LockSite.ResultSeed, and_iff_right wrapped]
  have seeds (v : ValueId) : v ∈ (p.walkFrom table .result [site.op] [site.guard]).handedOver ↔
      p.GuardSeed table site v := by
    rw [result.handedOver, GuardSeed, if_pos wrapped]
  simp only [lifetime, wrapped, if_true]
  refine ⟨result, seeds, (p.walkFrom_exact table .guard _ _).congr (fun o => ?_) seeds⟩
  rw [List.mem_cons, result.bucket, GuardSkips]

/-- The lifetime of a guard, for every site and every table: what is followed, where it ends and
which operations release the lock. -/
theorem lifetime_exact {read : Sexp.Reader} {file text : String} {p : Program}
    (loaded : Program.loadWith read file text = .ok p) (table : PatternTable) (site : LockSite) :
    (p.lifetime table site).Exact p table site := by
  have whole := Program.not_isBroken (Program.finished_of_load loaded) table site
  cases wrapped : site.wrapped with
  | false =>
    obtain ⟨result, none, guard⟩ := p.lifetime_bare table wrapped
    refine ⟨whole, result, fun v => ?_, guard, fun o => Lifetime.mem_releaseSet⟩
    rw [none, wrapped]
    exact iff_of_false List.not_mem_nil fun seed => Bool.false_ne_true seed.1
  | true =>
    obtain ⟨result, seeds, guard⟩ := p.lifetime_wrapped table wrapped
    refine ⟨whole, result, fun v => ?_, guard, fun o => Lifetime.mem_releaseSet⟩
    rw [seeds, and_iff_right wrapped]

/-- A guard that comes wrapped and then goes round a loop. -/
def loopedText : String := "(module looped (global lock (ptr i64))
(function \"main\" (params)
  (block a (call r (ptr i8) \"take\" lock) (call g (ptr i8) \"unwrap\" r) (br b))
  (block b (phi x (ptr i8) g y) (cast y (ptr i8) x) (condbr x b c))
  (block c (call _ void \"drop\" y) (ret))))"

def loopedTable : PatternTable :=
  { apis := [{ kind := .unwrap, matchers := [⟨.equals, "unwrap"⟩] },
      { kind := .autoDrop, matchers := [⟨.equals, "drop"⟩] }] }

def loopedSite : LockSite :=
  { op := 4, guard := 5, resource := 1, mode := .exclusive, wrapped := true, pattern := "take" }

set_option maxRecDepth 4000 in
theorem lifetime_exact_looped : ∃ p, Program.load "looped" loopedText = .ok p ∧
    (p.lifetime loopedTable loopedSite).result.bucket .unwrapped = [6] ∧
    (p.lifetime loopedTable loopedSite).guard.bucket .moved = [10, 12] ∧
    (p.lifetime loopedTable loopedSite).releaseSet = [16] ∧
    (p.lifetime loopedTable loopedSite).Exact p loopedTable loopedSite := by
  obtain ⟨p, loaded, checked⟩ : ∃ p, Program.load "looped" loopedText = .ok p ∧
      decide ((p.lifetime loopedTable loopedSite).result.bucket .unwrapped = [6] ∧
        (p.lifetime loopedTable loopedSite).guard.bucket .moved = [10, 12] ∧
        (p.lifetime loopedTable loopedSite).releaseSet = [16]) = true :=
    Program.exists_of_load rfl (by decide +kernel)
  obtain ⟨unwrapped, moved, released⟩ := of_decide_eq_true checked
  exact ⟨p, loaded, unwrapped, moved, released, lifetime_exact loaded loopedTable loopedSite⟩

end Relock
