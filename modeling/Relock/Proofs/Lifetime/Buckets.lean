import Relock.Proofs.Lifetime.Walk

/-!
# The buckets of a lifetime

What becomes of a value at a call is up to the call and the kind of the walk, not to the argument
that carries the value. So a call stands in one bucket of a walk at most, however many of its
arguments are followed (`Walk.Exact.fate_unique`), and only calls release a lock. The two walks read
the same call differently, so this says nothing of a call that both of them meet; what keeps the
unwrapping calls out of the release set is that the guard walk skips them. Nothing keeps out a call
that borrows from a guard and is also given the result it came in.
-/

namespace Relock

/-! ## One use -/

theorem Fate.mem_releases {fate : Fate} :
    fate ∈ Fate.releases ↔ fate = .autoDropped ∨ fate = .manualDropped ∨ fate = .opaqueCall := by
  simp only [Fate.releases, List.mem_cons, List.not_mem_nil, or_false]

theorem OpKind.isCall_iff {kind : OpKind} : kind.isCall = true ↔ kind = .call ∨ kind = .invoke := by
  cases kind <;> decide

namespace Program

variable {p : Program} {table : PatternTable} {kind : WalkKind} {use : Use} {o : OpId}

theorem op?_of_isCall (call : (p.op o).isCall = true) : p.op? o = some (p.op o) := by
  cases known : p.op? o with
  | some op => rw [op_eq known]
  | none =>
    rw [Program.op, known] at call
    cases call

/-- At a call all arguments have the same outcome. -/
theorem step_of_isCall (call : (p.op use.op).isCall = true) :
    p.step table kind use = p.stepCall table kind (p.op use.op) := by
  unfold step
  rcases OpKind.isCall_iff.mp call with is | is
  · simp only [is]
  · simp only [is]

theorem fate_moveTo (target : Option ValueId) : (moveTo target).fate = .moved ∨
    (moveTo target).fate = .unknown := by
  cases target with
  | none => exact .inr rfl
  | some v => exact .inl rfl

theorem moveTo_not_releases (target : Option ValueId) : (moveTo target).fate ∉ Fate.releases := by
  intro released
  rcases fate_moveTo target with is | is
  · rw [is] at released
    exact absurd released (by decide)
  · rw [is] at released
    exact absurd released (by decide)

/-- Only at a call is a guard dropped or lost sight of. -/
theorem isCall_of_releases (released : (p.step table kind use).fate ∈ Fate.releases) :
    (p.op use.op).isCall = true := by
  unfold Operation.isCall
  unfold step at released
  cases is : (p.op use.op).kind with
  | call => rfl
  | invoke => rfl
  | memcpy =>
    simp only [is] at released
    split at released
    next => exact absurd released (by decide)
    next => exact absurd released (moveTo_not_releases _)
  | store =>
    simp only [is] at released
    split at released
    next => exact absurd released (by decide)
    next => exact absurd released (moveTo_not_releases _)
  | load | cast | gep | extract | insert | phi =>
    simp only [is] at released
    exact absurd released (moveTo_not_releases _)
  | _ =>
    simp only [is] at released
    exact absurd released (by decide)

/-- A guard is not taken out of a guard. -/
theorem stepCall_guard_ne_unwrapped (op : Operation) :
    (p.stepCall table .guard op).fate ≠ .unwrapped := by
  unfold stepCall
  cases op.callee.function? with
  | none => exact Fate.noConfusion
  | some g =>
    cases table.api? op.callee.name with
    | none => exact Fate.noConfusion
    | some api => cases api <;> exact Fate.noConfusion

/-- Whatever is followed is followed from a seed. -/
theorem Followed.exists_seed {skipped : OpId → Prop} {seeds : ValueId → Prop} {v : ValueId}
    (followed : p.Followed table kind skipped seeds v) : ∃ w, seeds w := by
  induction followed with
  | seed seed => exact ⟨_, seed⟩
  | moved _ _ _ _ ih => exact ih

end Program

/-! ## One walk -/

namespace Walk.Exact

variable {p : Program} {table : PatternTable} {kind : WalkKind} {skipped : OpId → Prop}
    {seeds : ValueId → Prop}
  {walk : Walk} {o : OpId} {fate other : Fate}

theorem notMem_of_skipped (exact : walk.Exact p table kind skipped seeds) (skip : skipped o)
    (fate : Fate) :
    o ∉ walk.bucket fate := by
  intro mem
  obtain ⟨use, t, met, _, rfl⟩ := (exact.bucket fate o).mp mem
  exact met.edge skip

/-- The fate that a walk meets at a call is that of the call. -/
theorem fate_eq (exact : walk.Exact p table kind skipped seeds) (call : (p.op o).isCall = true)
    (mem : o ∈ walk.bucket fate) :
    fate = (p.stepCall table kind (p.op o)).fate := by
  obtain ⟨use, t, met, rfl, rfl⟩ := (exact.bucket fate o).mp mem
  rw [← met.step, Program.step_of_isCall call]

/-- A call stands in one bucket of a walk at most. -/
theorem fate_unique (exact : walk.Exact p table kind skipped seeds) (call : (p.op o).isCall = true)
    (mem : o ∈ walk.bucket fate) (mem' : o ∈ walk.bucket other) : fate = other :=
  (exact.fate_eq call mem).trans (exact.fate_eq call mem').symm

theorem isCall_of_mem (exact : walk.Exact p table kind skipped seeds)
    (releases : fate ∈ Fate.releases) (mem : o ∈ walk.bucket fate) :
    (p.op o).isCall = true := by
  obtain ⟨use, t, met, rfl, rfl⟩ := (exact.bucket fate o).mp mem
  rw [← met.step] at releases
  exact Program.isCall_of_releases releases

theorem notMem_of_no_seed (exact : walk.Exact p table kind skipped seeds) (none : ∀ v, ¬ seeds v)
    (fate : Fate) :
    o ∉ walk.bucket fate := by
  intro mem
  obtain ⟨use, t, ⟨⟨v, followed, _⟩, _, _⟩, _, _⟩ := (exact.bucket fate o).mp mem
  obtain ⟨w, seed⟩ := followed.exists_seed
  exact none w seed

end Walk.Exact

/-! ## Both walks -/

theorem Lifetime.mem_bucket {lifetime : Lifetime} {fate : Fate} {o : OpId} :
    o ∈ lifetime.bucket fate ↔ o ∈ lifetime.result.bucket fate ∨
    o ∈ lifetime.guard.bucket fate := by
  rw [Lifetime.bucket, mem_idSet, List.mem_append]

/-- How the buckets of a site's lifetime stand to each other. A call can be in a bucket of either
walk, but in one of each only, and a release is neither the acquisition nor an unwrapping. -/
structure Lifetime.Parted (p : Program) (site : LockSite) (lifetime : Lifetime) : Prop where
  acquisition : ∀ fate, site.op ∉ lifetime.result.bucket fate ∧ site.op ∉ lifetime.guard.bucket fate
  calls : ∀ o ∈ lifetime.releaseSet, ∃ op, p.op? o = some op ∧ (op.kind = .call ∨ op.kind = .invoke)
  unwrapped : ∀ o ∈ lifetime.releaseSet, o ∉ lifetime.bucket .unwrapped
  single : ∀ walk, walk = lifetime.result ∨ walk = lifetime.guard → ∀ o, (p.op o).isCall = true →
    ∀ fate fate', o ∈ walk.bucket fate → o ∈ walk.bucket fate' → fate = fate'
  dereferenced : site.wrapped = false → ∀ o ∈ lifetime.releaseSet, o ∉ lifetime.bucket .dereferenced

namespace Program

variable {p : Program} {table : PatternTable} {site : LockSite} {o : OpId}

/-- Both walks of a site follow what there is to follow. -/
theorem lifetime_walks (p : Program) (table : PatternTable) (site : LockSite) :
    (p.lifetime table site).result.Exact p table .result (· = site.op) site.ResultSeed ∧
    (p.lifetime table site).guard.Exact p table .guard (p.GuardSkips table site)
    (p.GuardSeed table site) := by
  cases wrapped : site.wrapped with
  | false =>
    obtain ⟨result, _, guard⟩ := p.lifetime_bare table wrapped
    exact ⟨result, guard⟩
  | true =>
    obtain ⟨result, _, guard⟩ := p.lifetime_wrapped table wrapped
    exact ⟨result, guard⟩

theorem isCall_of_mem_releaseSet (h : o ∈ (p.lifetime table site).releaseSet) :
    (p.op o).isCall = true := by
  obtain ⟨result, guard⟩ := p.lifetime_walks table site
  obtain ⟨fate, releases, mem | mem⟩ := Lifetime.mem_releaseSet.mp h
  · exact result.isCall_of_mem (Fate.mem_releases.mpr releases) mem
  · exact guard.isCall_of_mem (Fate.mem_releases.mpr releases) mem

/-- An operation that unwraps the guard is met by the result walk, and the guard walk skips it. -/
theorem unwrapped_notMem_releaseSet (h : o ∈ (p.lifetime table site).releaseSet) :
    o ∉ (p.lifetime table site).bucket .unwrapped := by
  intro unwraps
  have call := isCall_of_mem_releaseSet h
  obtain ⟨result, guard⟩ := p.lifetime_walks table site
  have inResult : o ∈ (p.lifetime table site).result.bucket .unwrapped := by
    rcases Lifetime.mem_bucket.mp unwraps with mem | mem
    · exact mem
    · exact absurd (guard.fate_eq call mem).symm (stepCall_guard_ne_unwrapped _)
  have skipped : p.GuardSkips table site o := .inr ((result.bucket .unwrapped o).mp inResult)
  obtain ⟨fate, releases, mem | mem⟩ := Lifetime.mem_releaseSet.mp h
  · have same : fate = .unwrapped := result.fate_unique call mem inResult
    rw [same] at releases
    exact absurd releases (by decide)
  · exact guard.notMem_of_skipped skipped fate mem

/-- A site whose guard comes bare has one walk. -/
theorem dereferenced_notMem_releaseSet (bare : site.wrapped = false)
    (h : o ∈ (p.lifetime table site).releaseSet) :
    o ∉ (p.lifetime table site).bucket .dereferenced := by
  intro borrows
  have call := isCall_of_mem_releaseSet h
  obtain ⟨result, guard⟩ := p.lifetime_walks table site
  have empty (fate : Fate) : o ∉ (p.lifetime table site).result.bucket fate :=
    result.notMem_of_no_seed (fun v seed => Bool.false_ne_true (bare.symm.trans seed.1)) fate
  obtain ⟨fate, releases, mem⟩ := Lifetime.mem_releaseSet.mp h
  have same : fate = .dereferenced :=
    guard.fate_unique call (mem.resolve_left (empty fate))
      ((Lifetime.mem_bucket.mp borrows).resolve_left (empty _))
  rw [same] at releases
  exact absurd releases (by decide)

end Program

/-- The release set of a site, real or synthetic, has calls only, and neither the acquisition nor a
call that unwraps the guard; a call has one fate in each walk, and one that borrows from a bare
guard does not release it. -/
theorem lifetime_parted (p : Program) (table : PatternTable) (site : LockSite) :
    (p.lifetime table site).Parted p site := by
  obtain ⟨result, guard⟩ := p.lifetime_walks table site
  constructor
  case acquisition =>
    intro fate
    exact ⟨result.notMem_of_skipped rfl fate, guard.notMem_of_skipped (.inl rfl) fate⟩
  case calls =>
    intro o released
    have call := Program.isCall_of_mem_releaseSet released
    exact ⟨p.op o, Program.op?_of_isCall call, OpKind.isCall_iff.mp call⟩
  case unwrapped =>
    intro o released
    exact Program.unwrapped_notMem_releaseSet released
  case single =>
    intro walk which o call fate fate' mem mem'
    rcases which with rfl | rfl
    · exact result.fate_unique call mem mem'
    · exact guard.fate_unique call mem mem'
  case dereferenced =>
    intro bare o released
    exact Program.dereferenced_notMem_releaseSet bare released

/-- A call that is given a result and the guard that was taken out of it. -/
def borrowedText : String := "(module borrowed (global lock (ptr i64))
(function \"main\" (params)
  (block a (call r (ptr i8) \"take\" lock) (call g (ptr i8) \"unwrap\" r)
    (call _ void \"deref\" r g) (ret))))"

def borrowedTable : PatternTable :=
  { apis := [{ kind := .unwrap, matchers := [⟨.equals, "unwrap"⟩] },
    { kind := .deref, matchers := [⟨.equals, "deref"⟩] }] }

set_option maxRecDepth 4000 in
/-- If the guard comes wrapped, a call may borrow from it in one walk and release it in the
other. -/
example : ∃ p, Program.load "borrowed" borrowedText = .ok p ∧
    decide ((p.lifetime borrowedTable loopedSite).releaseSet = [8] ∧
      (p.lifetime borrowedTable loopedSite).bucket .dereferenced = [8]) = true :=
  Program.exists_of_load rfl (by decide +kernel)

end Relock
