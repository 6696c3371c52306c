import Relock.Lifetime.Wrapper
import Relock.Proofs.Program.Ops
import Relock.Proofs.Program.Reserved

/-!
# Chains of wrapper calls

`Program.Wraps` says when a call makes a synthetic site of a site whose guard is returned to it, and
what that site is. `Program.Chained` closes it: a chain of calls leads from a site to a synthetic
one, each call the call of the function that the site before it stands in. The synthetic sites of
some direct sites are exactly the ends of such chains, up to the depth of the settings, each chain
once.

The key of a synthetic site is its call followed by the key of the site it stands for. So the keys
of one level of callers are longer by one than those of the level before, and a level has no key
twice if the level before has none (`Level`). `Program.wrappers` is the list of the levels.

The queue goes through the levels in order. While a level is handed on, the queue holds what is left
of the level and then what was made of the part before, and every key seen is of the part before or
of a lower level (`Midway`); so no site is refused for its key, and none is taken off at another
depth than that of its level. The sites found are therefore the levels, and a larger depth only adds
levels.
-/

namespace Relock

/-- Synthetic sites at the end of the queue. -/
def Propagation.add (state : Propagation) (made : List Holding) (depth : Nat) : Propagation where
  queue := state.queue ++ made.map (·, depth)
  seen := (made.map fun w => w.site.key).reverse ++ state.seen
  found := state.found ++ made

theorem Propagation.add_nil (state : Propagation) (depth : Nat) : state.add [] depth = state := by
  simp only [add, List.map_nil, List.append_nil, List.reverse_nil, List.nil_append]

namespace Program

variable {p : Program} {config : Config}

/-! ## One call -/

/-- The sites that one level of callers adds for a site. -/
def wrappersOf (p : Program) (config : Config) (g : CallGraph) (holding : Holding) : List Holding :=
  match holding.lifetime.returned? with
  | none => []
  | some walk =>
    ((p.wrapperCalls g holding.site).filterMap (p.wrapperAt? config holding.site walk)).map
      (p.holding config)

/-- The sites of the next levels, as many as `depth` says. -/
def wrappers (p : Program) (config : Config) (g : CallGraph) : (depth : Nat) → List Holding →
    List Holding
  | 0, _ => []
  | depth + 1, level =>
    level.flatMap (p.wrappersOf config g) ++ wrappers p config g depth
      (level.flatMap (p.wrappersOf config g))

/-- A call makes `above` of a site whose guard is returned to it. -/
structure Wraps (p : Program) (config : Config) (below : Holding) (call : OpId)
    (above : Holding) : Prop where
  returned : below.lifetime.returned? ≠ none
  op : call ∈ p.allOps
  /-- It is a call of the function that the site stands in. -/
  target : ∃ f, p.functionOf? below.site.op = some f ∧ (p.op call).target? = some f
  scope : config.localOnly = true → ∃ loc, (p.op call).location = some loc ∧ loc.isLocal = true
  key : above.site.key = call :: below.site.key
  /-- Its result is the guard. -/
  guard : (p.op call).result = some above.site.guard
  resource : above.site.resource = below.site.resource
  mode : above.site.mode = below.site.mode
  pattern : above.site.pattern = below.site.pattern
  wrapped : above.site.wrapped = true ↔ below.lifetime.returned? = some .result
  lifetime : above.lifetime = p.lifetime config.patterns above.site

theorem isInScope_iff {o : OpId} : p.isInScope config o = true ↔
    (config.localOnly = true → ∃ loc, (p.op o).location = some loc ∧ loc.isLocal = true) := by
  unfold isInScope
  cases config.localOnly with
  | false => simp only [Bool.not_false, Bool.true_or, Bool.false_eq_true, false_implies]
  | true =>
    cases (p.op o).location with
    | none =>
      simp only [Bool.not_true, Bool.or_self, Bool.false_eq_true, reduceCtorEq, false_and,
        exists_false, forall_const]
    | some loc =>
      simp only [Bool.not_true, Bool.false_or, Option.some.injEq, exists_eq_left', forall_const]

theorem wrapperAt?_eq_some {site made : LockSite} {walk : WalkKind} {call : OpId} :
    p.wrapperAt? config site walk call = some made ↔ ∃ guard, (p.op call).result = some guard ∧
      p.isInScope config call = true ∧ made = wrapperSite site walk call guard := by
  unfold wrapperAt?
  split
  next none => simp only [none, reduceCtorEq, false_and, exists_false]
  next guard result =>
    simp only [result, Option.some.injEq, exists_eq_left', Option.ite_none_right_eq_some]
    exact and_congr_right fun _ => eq_comm

/-- What the calls of the function of a site make of it. -/
theorem mem_wrappersOf {g : CallGraph} {h w : Holding} : w ∈ p.wrappersOf config g h ↔
    ∃ walk, ∃ call ∈ p.wrapperCalls g h.site, ∃ guard, h.lifetime.returned? = some walk ∧
      (p.op call).result = some guard ∧ p.isInScope config call = true ∧
      w = p.holding config (wrapperSite h.site walk call guard) := by
  unfold wrappersOf
  cases h.lifetime.returned? with
  | none => simp only [List.not_mem_nil, reduceCtorEq, false_and, exists_false, and_false]
  | some walk =>
    simp only [List.mem_map, List.mem_filterMap, wrapperAt?_eq_some]
    constructor
    · rintro ⟨_, ⟨call, mem, guard, result, scope, rfl⟩, rfl⟩
      exact ⟨walk, call, mem, guard, rfl, result, scope, rfl⟩
    · rintro ⟨walk', call, mem, guard, walks, result, scope, rfl⟩
      obtain rfl := Option.some.inj walks
      exact ⟨_, ⟨call, mem, guard, result, scope, rfl⟩, rfl⟩

theorem mem_wrapperCalls (shape : p.Shape) (reserved : p.Reserved) {site : LockSite} {c : OpId} :
    c ∈ p.wrapperCalls p.callGraph site ↔
      c ∈ p.allOps ∧ ∃ f, p.functionOf? site.op = some f ∧ (p.op c).target? = some f := by
  unfold wrapperCalls
  cases home : p.functionOf? site.op with
  | none => simp
  | some f =>
    have known : f ≠ CallGraph.sink := reserved.function_ne (function?_of_functionOf? shape home)
    simp only [mem_callSitesOf known, Option.some.injEq, exists_eq_left']

/-- The synthetic sites of one level for a site are those that a call makes of it. -/
theorem mem_wrappersOf_iff (shape : p.Shape) (reserved : p.Reserved) {h w : Holding} :
    w ∈ p.wrappersOf config p.callGraph h ↔ ∃ call, p.Wraps config h call w := by
  rw [mem_wrappersOf]
  constructor
  · rintro ⟨walk, call, mem, guard, returned, result, scope, rfl⟩
    obtain ⟨op, target⟩ := (mem_wrapperCalls shape reserved).mp mem
    exact ⟨call, {
      returned := by rw [returned]; exact Option.some_ne_none walk
      op := op
      target := target
      scope := isInScope_iff.mp scope
      key := rfl
      guard := result
      resource := rfl
      mode := rfl
      pattern := rfl
      wrapped := by rw [returned, Option.some.injEq]; exact decide_eq_true_iff
      lifetime := rfl }⟩
  · rintro ⟨call, wraps⟩
    obtain ⟨walk, returned⟩ := Option.ne_none_iff_exists'.mp wraps.returned
    refine ⟨walk, call, (mem_wrapperCalls shape reserved).mpr ⟨wraps.op, wraps.target⟩,
      w.site.guard, returned, wraps.guard, isInScope_iff.mpr wraps.scope, ?_⟩
    -- the fields that `Wraps` fixes are all there are
    obtain ⟨site, lifetime⟩ := w
    have site_eq : site = wrapperSite h.site walk call site.guard := by
      obtain ⟨op, via, guard, resource, mode, wrapped, pattern⟩ := site
      obtain ⟨rfl, rfl⟩ := List.cons.inj wraps.key
      have wrapped_eq : wrapped = decide (walk = .result) := by
        have outer := wraps.wrapped
        rw [returned, Option.some.injEq] at outer
        rw [Bool.eq_iff_iff, decide_eq_true_iff]
        exact outer
      rw [wrapperSite, ← wraps.resource, ← wraps.mode, ← wraps.pattern, ← wrapped_eq]
    have lifetime_eq : lifetime = p.lifetime config.patterns site := wraps.lifetime
    rw [holding, ← site_eq, ← lifetime_eq]

theorem wrapperCalls_sublist (p : Program) (site : LockSite) :
    (p.wrapperCalls p.callGraph site).Sublist p.allOps := by
  unfold wrapperCalls
  split
  next f _ => exact p.callSitesOf_sublist f
  next => exact List.nil_sublist _

/-- The synthetic sites of one site stand at different calls. -/
theorem wrappersOf_distinct (shape : p.Shape) (h : Holding) :
    (p.wrappersOf config p.callGraph h).Pairwise fun a b => a.site.key ≠ b.site.key := by
  unfold wrappersOf
  split
  next => exact .nil
  next walk _ =>
    have calls := (allOps_nodup shape).sublist (p.wrapperCalls_sublist h.site)
    rw [List.pairwise_map]
    refine (filterMap_pairwise_ne (fun made : LockSite => made.op) (fun call made at_ =>
      ?_) calls).imp ?_
    · obtain ⟨guard, _, _, rfl⟩ := wrapperAt?_eq_some.mp at_
      rfl
    · intro a b other same
      exact other (List.cons.inj same).1

/-! ## Levels -/

/-- Sites whose keys are all different and of one length. -/
structure Level (n : Nat) (level : List Holding) : Prop where
  length : ∀ h ∈ level, h.site.key.length = n
  distinct : level.Pairwise fun a b => a.site.key ≠ b.site.key

theorem key_of_mem_wrappersOf {g : CallGraph} {h w : Holding} (hw : w ∈ p.wrappersOf config g h) :
    ∃ call, w.site.key = call :: h.site.key := by
  obtain ⟨walk, call, _, guard, _, _, _, rfl⟩ := mem_wrappersOf.mp hw
  exact ⟨call, rfl⟩

/-- The next level has longer keys. -/
theorem Level.next (config : Config) (shape : p.Shape) {n : Nat} {level : List Holding}
    (h : Level n level) :
    Level (n + 1) (level.flatMap (p.wrappersOf config p.callGraph)) where
  length := by
    intro w hw
    obtain ⟨below, hb, hw⟩ := List.mem_flatMap.mp hw
    obtain ⟨call, key⟩ := key_of_mem_wrappersOf hw
    rw [key, List.length_cons, h.length below hb]
  distinct := by
    refine List.pairwise_flatMap.mpr ⟨fun below _ => wrappersOf_distinct shape below, ?_⟩
    refine h.distinct.imp fun {below below'} other w hw w' hw' same => other ?_
    obtain ⟨_, key⟩ := key_of_mem_wrappersOf hw
    obtain ⟨_, key'⟩ := key_of_mem_wrappersOf hw'
    rw [key, key'] at same
    exact (List.cons.inj same).2

/-- All levels above one have longer keys, and no key twice. -/
theorem Level.wrappers (config : Config) (shape : p.Shape) (depth : Nat) {n : Nat}
    {level : List Holding} (h : Level n level) :
    (∀ w ∈ p.wrappers config p.callGraph depth level, n < w.site.key.length) ∧
    (p.wrappers config p.callGraph depth level).Pairwise fun a b => a.site.key ≠ b.site.key := by
  induction depth generalizing n level with
  | zero => exact ⟨fun w hw => absurd hw List.not_mem_nil, .nil⟩
  | succ depth ih =>
    have next := h.next config shape
    obtain ⟨longer, distinct⟩ := ih next
    rw [Program.wrappers]
    refine ⟨fun w hw => ?_,
      List.pairwise_append.mpr ⟨next.distinct, distinct, fun a ha b hb same => ?_⟩⟩
    · rcases List.mem_append.mp hw with one | more
      · rw [next.length w one]
        exact Nat.lt_succ_self n
      · exact Nat.lt_of_succ_lt (longer w more)
    · have length := longer b hb
      rw [← same, next.length a ha] at length
      exact Nat.lt_irrefl _ length

/-- More depth adds levels behind those there are. -/
theorem wrappers_isPrefix (g : CallGraph) (depth : Nat) (level : List Holding) :
    p.wrappers config g depth level <+: p.wrappers config g (depth + 1) level := by
  induction depth generalizing level with
  | zero => exact List.nil_prefix
  | succ depth ih =>
    rw [wrappers, wrappers]
    exact (List.prefix_append_right_inj _).mpr (ih _)

/-! ## The queue -/

/-- Calls whose synthetic sites have new keys add them all. -/
theorem foldl_meetCall {site : LockSite} {walk : WalkKind} {depth : Nat} {calls : List OpId}
    {state : Propagation}
    (distinct : (calls.filterMap (p.wrapperAt? config site walk)).Pairwise fun a b => a.key ≠ b.key)
    (new : ∀ made ∈ calls.filterMap (p.wrapperAt? config site walk), made.key ∉ state.seen) :
    calls.foldl (p.meetCall config site walk depth) state =
      state.add ((calls.filterMap (p.wrapperAt? config site walk)).map (p.holding config))
      (depth + 1) := by
  induction calls generalizing state with
  | nil => exact (state.add_nil (depth + 1)).symm
  | cons call calls ih =>
    rw [List.foldl_cons]
    cases made : p.wrapperAt? config site walk call with
    | none =>
      rw [List.filterMap_cons_none made] at distinct new ⊢
      rw [meetCall, made]
      exact ih distinct new
    | some first =>
      rw [List.filterMap_cons_some made] at distinct new ⊢
      obtain ⟨apart, distinct⟩ := List.pairwise_cons.mp distinct
      obtain ⟨fresh, new⟩ := List.forall_mem_cons.mp new
      rw [meetCall, made]
      show calls.foldl _ (if first.key ∈ state.seen then state else _) = _
      rw [if_neg fresh, ih distinct]
      · simp only [Propagation.add, List.map_cons, List.reverse_cons, List.append_assoc,
          List.singleton_append]
        rfl
      · intro other mem seen
        rcases List.mem_cons.mp seen with same | old
        · exact apart other mem same.symm
        · exact new other mem old

theorem handOn_deep {g : CallGraph} {h : Holding} {depth : Nat}
    (deep : config.maxWrapperDepth ≤ depth) (state : Propagation) :
    p.handOn config g h depth state = state := by
  unfold handOn
  split
  · rfl
  · exact if_pos deep

theorem handOn_eq (shape : p.Shape) {h : Holding} {depth : Nat} {state : Propagation}
    (below : depth < config.maxWrapperDepth)
    (new : ∀ w ∈ p.wrappersOf config p.callGraph h, w.site.key ∉ state.seen) :
    p.handOn config p.callGraph h depth state =
      state.add (p.wrappersOf config p.callGraph h) (depth + 1) := by
  have distinct : (p.wrappersOf config p.callGraph h).Pairwise fun a b => a.site.key ≠ b.site.key :=
    wrappersOf_distinct shape h
  cases returned : h.lifetime.returned? with
  | none =>
    have made : p.wrappersOf config p.callGraph h = [] := by rw [wrappersOf, returned]
    rw [handOn, returned, made, Propagation.add_nil]
  | some walk =>
    have made : p.wrappersOf config p.callGraph h = ((p.wrapperCalls p.callGraph h.site).filterMap
        (p.wrapperAt? config h.site walk)).map (p.holding config) := by rw [wrappersOf, returned]
    rw [made, List.pairwise_map] at distinct
    rw [made] at new ⊢
    rw [handOn, returned]
    show (if config.maxWrapperDepth ≤ depth then state else _) = _
    rw [if_neg (Nat.not_le.mpr below)]
    exact foldl_meetCall distinct fun site mem => new _ (List.mem_map_of_mem mem)

/-- The keys seen when a part of a level is left: none is longer than those of the next level, and
none is the key of a site that the part will make. -/
structure Midway (n : Nat) (left : List Holding) (seen : List (List OpId)) : Prop where
  short : ∀ key ∈ seen, key.length ≤ n + 1
  new : ∀ h ∈ left, ∀ call, call :: h.site.key ∉ seen

theorem Midway.handOn {n : Nat} {h : Holding} {left : List Holding} {seen : List (List OpId)}
    (midway : Midway n (h :: left) seen) (level : Level n (h :: left)) {g : CallGraph} :
    Midway n left (((p.wrappersOf config g h).map fun w => w.site.key).reverse ++ seen) := by
  have made {key : List OpId}
      (mem : key ∈ ((p.wrappersOf config g h).map fun w => w.site.key).reverse) :
      ∃ call, key = call :: h.site.key := by
    obtain ⟨w, hw, rfl⟩ := List.mem_map.mp (List.mem_reverse.mp mem)
    exact key_of_mem_wrappersOf hw
  constructor
  · intro key mem
    rcases List.mem_append.mp mem with recent | old
    · obtain ⟨call, rfl⟩ := made recent
      exact Nat.le_of_eq (congrArg (· + 1) (level.length h List.mem_cons_self))
    · exact midway.short key old
  · intro other later call mem
    rcases List.mem_append.mp mem with recent | old
    · obtain ⟨_, same⟩ := made recent
      exact (List.pairwise_cons.mp level.distinct).1 other later (List.cons.inj same).2.symm
    · exact midway.new other (List.mem_cons_of_mem h later) call old

theorem Level.tail {n : Nat} {h : Holding} {left : List Holding} (level : Level n (h :: left)) :
    Level n left :=
  ⟨fun other later => level.length other (List.mem_cons_of_mem h later),
    (List.pairwise_cons.mp level.distinct).2⟩

/-- The queue goes through a level: what is left of it is handed on, behind what was made of the
part before. -/
theorem propagate_level (shape : p.Shape) {depth n : Nat} (below : depth < config.maxWrapperDepth)
    {left : List Holding} (level : Level n left) {seen : List (List OpId)}
    (midway : Midway n left seen) (made found : List Holding) :
    ∃ seen', (∀ key ∈ seen', key.length ≤ n + 1) ∧
      p.propagate config p.callGraph ⟨left.map (·, depth) ++ made.map (·, depth + 1), seen, found⟩ =
        p.propagate config p.callGraph
          ⟨(made ++ left.flatMap (p.wrappersOf config p.callGraph)).map (·, depth + 1), seen',
            found ++ left.flatMap (p.wrappersOf config p.callGraph)⟩ := by
  induction left generalizing seen made found with
  | nil =>
    exact ⟨seen, midway.short, by rw [List.flatMap_nil, List.append_nil, List.append_nil]; rfl⟩
  | cons h left ih =>
    have new : ∀ w ∈ p.wrappersOf config p.callGraph h, w.site.key ∉ seen := by
      intro w hw
      obtain ⟨call, key⟩ := key_of_mem_wrappersOf hw
      rw [key]
      exact midway.new h List.mem_cons_self call
    obtain ⟨seen', short, rest⟩ := ih level.tail (midway.handOn level)
      (made ++ p.wrappersOf config p.callGraph h) (found ++ p.wrappersOf config p.callGraph h)
    refine ⟨seen', short, ?_⟩
    rw [List.map_cons, List.cons_append, propagate, handOn_eq shape below new,
      List.flatMap_cons, ← List.append_assoc, ← List.append_assoc, ← rest,
      List.map_append, ← List.append_assoc]
    rfl

theorem propagate_deep {g : CallGraph} {depth : Nat} (deep : config.maxWrapperDepth ≤ depth)
    (level : List Holding) (seen : List (List OpId)) (found : List Holding) :
    p.propagate config g ⟨level.map (·, depth), seen, found⟩ = found := by
  induction level with
  | nil => rw [List.map_nil, propagate]
  | cons h level ih => rw [List.map_cons, propagate, handOn_deep deep, ih]

/-- From a level on, the sites found are the levels above it. -/
theorem propagate_eq (shape : p.Shape) {left depth n : Nat}
    (limit : depth + left = config.maxWrapperDepth) {level : List Holding} (h : Level n level)
    {seen : List (List OpId)} (short : ∀ key ∈ seen, key.length ≤ n)
    (found : List Holding) :
    p.propagate config p.callGraph ⟨level.map (·, depth), seen, found⟩ =
      found ++ p.wrappers config p.callGraph left level := by
  induction left generalizing depth n level seen found with
  | zero =>
    have deep : config.maxWrapperDepth ≤ depth := by omega
    rw [propagate_deep deep, wrappers, List.append_nil]
  | succ left ih =>
    have midway : Midway n level seen := by
      refine ⟨fun key mem => Nat.le_succ_of_le (short key mem), fun below mem call seen => ?_⟩
      have longer := short _ seen
      rw [List.length_cons, h.length below mem] at longer
      omega
    have below : depth < config.maxWrapperDepth := by omega
    have limit : depth + 1 + left = config.maxWrapperDepth := by omega
    obtain ⟨seen', short', whole⟩ := propagate_level shape below h midway [] found
    rw [List.map_nil, List.append_nil, List.nil_append] at whole
    rw [whole, ih limit (h.next config shape) short', wrappers, List.append_assoc]

/-- The queue finds the levels above the sites that it starts with. -/
theorem wrapperSites_eq (shape : p.Shape) (config : Config) {n : Nat} {roots : List Holding}
    (h : Level n roots) :
    p.wrapperSites config p.callGraph roots =
      p.wrappers config p.callGraph config.maxWrapperDepth roots :=
  (propagate_eq shape (Nat.zero_add _) h (List.forall_mem_nil _) []).trans (List.nil_append _)

/-! ## Chains -/

/-- A chain of calls, the last one first, leads from a site to the synthetic site of its last
call. -/
inductive Chained (p : Program) (config : Config) (root : Holding) : List OpId → Holding → Prop
  | root : Chained p config root [] root
  | call {calls below call above} : Chained p config root calls below →
      p.Wraps config below call above →
      Chained p config root (call :: calls) above

theorem Chained.prepend {h next w : Holding} {call : OpId} {calls : List OpId}
    (wraps : p.Wraps config h call next) (chained : p.Chained config next calls w) :
    p.Chained config h (calls ++ [call]) w := by
  induction chained with
  | root => exact .call .root wraps
  | call _ further ih => exact .call ih further

/-- A chain is empty or begins with a call of the function of its root. -/
theorem Chained.begins {h w : Holding} {calls : List OpId} (chained : p.Chained config h calls w) :
    calls = [] ∧ w = h ∨ ∃ first later next, calls = later ++ [first] ∧
      p.Wraps config h first next ∧ p.Chained config next later w := by
  induction chained with
  | root => exact .inl ⟨rfl, rfl⟩
  | @call calls below call above _ wraps ih =>
    rcases ih with ⟨rfl, rfl⟩ | ⟨first, later, next, rfl, begins, chained⟩
    · exact .inr ⟨call, [], above, rfl, wraps, .root⟩
    · exact .inr ⟨first, call :: later, next, rfl, begins, .call chained wraps⟩

/-- What a synthetic site takes over from the direct one. -/
structure Inherits (root : LockSite) (calls : List OpId) (site : LockSite) : Prop where
  key : site.key = calls ++ root.key
  resource : site.resource = root.resource
  mode : site.mode = root.mode
  pattern : site.pattern = root.pattern

theorem Chained.inherits {root w : Holding} {calls : List OpId}
    (chained : p.Chained config root calls w) :
    Inherits root.site calls w.site := by
  induction chained with
  | root => exact ⟨rfl, rfl, rfl, rfl⟩
  | call _ wraps ih =>
    exact {
      key := by rw [wraps.key, ih.key, List.cons_append]
      resource := wraps.resource.trans ih.resource
      mode := wraps.mode.trans ih.mode
      pattern := wraps.pattern.trans ih.pattern }

/-- The levels above a level are the chains from its sites. -/
theorem mem_wrappers (shape : p.Shape) (reserved : p.Reserved) {depth : Nat} {level : List Holding}
    {w : Holding} :
    w ∈ p.wrappers config p.callGraph depth level ↔
      ∃ root ∈ level, ∃ calls, 1 ≤ calls.length ∧ calls.length ≤ depth ∧
      p.Chained config root calls w := by
  induction depth generalizing level with
  | zero =>
    refine iff_of_false List.not_mem_nil ?_
    rintro ⟨root, _, calls, some, none, _⟩
    omega
  | succ depth ih =>
    have step (next : Holding) : next ∈ level.flatMap (p.wrappersOf config p.callGraph) ↔
        ∃ root ∈ level, ∃ call, p.Wraps config root call next := by
      simp only [List.mem_flatMap, mem_wrappersOf_iff shape reserved]
    rw [wrappers, List.mem_append, ih]
    constructor
    · rintro (one | ⟨next, mem, calls, _, short, chained⟩)
      · obtain ⟨root, hr, call, wraps⟩ := (step w).mp one
        exact ⟨root, hr, [call], Nat.le_refl 1, Nat.succ_pos depth, .call .root wraps⟩
      · obtain ⟨root, hr, call, wraps⟩ := (step next).mp mem
        refine ⟨root, hr, calls ++ [call], ?_, ?_, chained.prepend wraps⟩
        all_goals simp only [List.length_append, List.length_singleton]; omega
    · rintro ⟨root, hr, calls, some, short, chained⟩
      rcases chained.begins with ⟨rfl, _⟩ | ⟨first, later, next, rfl, wraps, chained⟩
      · simp at some
      · simp only [List.length_append, List.length_singleton] at short
        have mem := (step next).mpr ⟨root, hr, first, wraps⟩
        cases chained with
        | root => exact .inl mem
        | @call calls below call above before wraps =>
          refine .inr ⟨next, mem, call :: calls, ?_, ?_, .call before wraps⟩
          all_goals simp only [List.length_cons] at short ⊢; omega

/-! ## The synthetic sites of direct ones -/

/-- The depth of the settings says how far chains are followed, and nothing else. -/
theorem wrappers_depth (config : Config) (g : CallGraph) (limit depth : Nat)
    (level : List Holding) :
    p.wrappers { config with maxWrapperDepth := limit } g depth level =
      p.wrappers config g depth level := by
  have one : p.wrappersOf { config with maxWrapperDepth := limit } g = p.wrappersOf config g := rfl
  induction depth generalizing level with
  | zero => rfl
  | succ depth ih => rw [wrappers, wrappers, ih, one]

/-- The synthetic sites found for some direct ones: the chains from them up to the depth of the
settings, each once, with what they take over from the site they stand for. -/
structure WrapperChains (p : Program) (config : Config) (roots found : List Holding) : Prop where
  chains : ∀ w, w ∈ found ↔
    ∃ root ∈ roots, ∃ calls, 1 ≤ calls.length ∧ calls.length ≤ config.maxWrapperDepth ∧
    p.Chained config root calls w
  distinct : (found.map fun w => w.site.key).Nodup
  once : ∀ root ∈ roots, ∀ calls w, 1 ≤ calls.length → calls.length ≤ config.maxWrapperDepth →
    p.Chained config root calls w →
    (found.map fun w => w.site.key).count (calls ++ [root.site.op]) = 1
  inherits : ∀ root ∈ roots, ∀ calls w, p.Chained config root calls w →
    Inherits root.site calls w.site

end Program

/-- Returned guards are followed into exactly the callers that there are, level by level. -/
theorem wrapperSites_chains {read : Sexp.Reader} {file text : String} {p : Program}
    (loaded : Program.loadWith read file text = .ok p) (config : Config) {roots : List Holding}
    (direct : ∀ root ∈ roots, root.site.isSynthetic = false)
    (distinct : roots.Pairwise fun a b => a.site.key ≠ b.site.key) :
    p.WrapperChains config roots (p.wrapperSites config p.callGraph roots) ∧
    ∀ depth, p.wrapperSites { config with maxWrapperDepth := depth } p.callGraph roots <+:
      p.wrapperSites { config with maxWrapperDepth := depth + 1 } p.callGraph roots := by
  have shape := Program.shape_of_load loaded
  have root_key {root : Holding} (hr : root ∈ roots) : root.site.key = [root.site.op] := by
    have none : root.site.via = [] := by simpa [LockSite.isSynthetic] using direct root hr
    rw [LockSite.key, none]
  have level : Program.Level 1 roots := ⟨fun root hr => by rw [root_key hr]; rfl, distinct⟩
  have chains (w : Holding) : w ∈ p.wrapperSites config p.callGraph roots ↔ ∃ root ∈ roots, ∃ calls,
      1 ≤ calls.length ∧ calls.length ≤ config.maxWrapperDepth ∧ p.Chained config root calls w := by
    rw [Program.wrapperSites_eq shape config level]
    exact Program.mem_wrappers shape (Program.reserved_of_load loaded)
  have keys : ((p.wrapperSites config p.callGraph roots).map fun w => w.site.key).Nodup := by
    rw [Program.wrapperSites_eq shape config level]
    exact List.pairwise_map.mpr (level.wrappers config shape config.maxWrapperDepth).2
  refine ⟨⟨chains, keys, ?_, fun _ _ _ _ chained => chained.inherits⟩, ?_⟩
  · intro root hr calls w some short chained
    have mem := (chains w).mpr ⟨root, hr, calls, some, short, chained⟩
    rw [← root_key hr, ← chained.inherits.key]
    rw [keys.count, if_pos (List.mem_map_of_mem mem)]
  · intro depth
    simp only [Program.wrapperSites_eq shape _ level, Program.wrappers_depth]
    exact Program.wrappers_isPrefix p.callGraph depth roots

/-- A function that returns its own call's guard. -/
def spiralText : String := "(module spiral (global lock (ptr i64))
(function \"grab\" (params) (returns (ptr i8))
  (block a (call g (ptr i8) \"take\" lock) (call h (ptr i8) \"grab\")
    (phi x (ptr i8) g h) (ret x))))"

def spiralConfig : Config :=
  { maxWrapperDepth := 3,
    patterns := { locks := [{ name := "take", matchers := [⟨.equals, "take"⟩] }] } }

set_option maxRecDepth 4000 in
theorem wrapperSites_chains_spiral : ∃ p roots, Program.load "spiral" spiralText = .ok p ∧
    roots = (p.lockSites spiralConfig).map (p.holding spiralConfig) ∧
    roots.map (fun h => h.site.key) = [[4]] ∧
    (p.wrapperSites spiralConfig p.callGraph roots).map (fun w => w.site.key) =
      [[6, 4], [6, 6, 4], [6, 6, 6, 4]] ∧
    p.WrapperChains spiralConfig roots (p.wrapperSites spiralConfig p.callGraph roots) ∧
    p.wrapperSites { spiralConfig with maxWrapperDepth := 2 } p.callGraph roots <+:
      p.wrapperSites { spiralConfig with maxWrapperDepth := 3 } p.callGraph roots := by
  obtain ⟨p, loaded, checked⟩ : ∃ p, Program.load "spiral" spiralText = .ok p ∧
      decide (((p.lockSites spiralConfig).map (p.holding spiralConfig)).map
          (fun h => h.site.key) = [[4]] ∧
        (p.wrapperSites spiralConfig p.callGraph
          ((p.lockSites spiralConfig).map (p.holding spiralConfig))).map
          (fun w => w.site.key) = [[6, 4], [6, 6, 4], [6, 6, 6, 4]]) = true :=
    Program.exists_of_load rfl (by decide +kernel)
  obtain ⟨roots, found⟩ := of_decide_eq_true checked
  have direct : ∀ root ∈ (p.lockSites spiralConfig).map (p.holding spiralConfig),
      root.site.isSynthetic = false := by
    intro root hr
    have key : root.site.key ∈ [[4]] := roots ▸ List.mem_map_of_mem hr
    rw [LockSite.isSynthetic, (List.cons.inj (List.mem_singleton.mp key)).2]
    rfl
  have distinct : ((p.lockSites spiralConfig).map (p.holding spiralConfig)).Pairwise fun a b =>
      a.site.key ≠ b.site.key := by
    rw [← List.pairwise_map (f := fun h : Holding => h.site.key) (R := (· ≠ ·)), roots]
    exact List.pairwise_singleton _ _
  obtain ⟨chains, longer⟩ := wrapperSites_chains loaded spiralConfig direct distinct
  exact ⟨p, _, loaded, rfl, roots, found, chains, longer 2⟩

end Relock
