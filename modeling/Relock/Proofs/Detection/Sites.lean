import Relock.Detection
import Relock.Proofs.Lifetime.Walk
import Relock.Proofs.Lifetime.Wrapper

/-!
# The lock sites of a run

Direct sites stand at different operations, so that their keys, which are one operation long, are
all different, and those of the synthetic sites are longer. Sorted by their keys, the sites of a run
are strictly increasing.
-/

namespace Relock.Program

variable {p : Program} {config : Config}

/-! ## Direct sites -/

theorem classify_site {table : PatternTable} {o : OpId} {site : LockSite}
    (h : p.classify table o = .site site) :
    site.op = o ∧ site.via = [] := by
  simp only [classify] at h
  split at h
  next => cases h
  next =>
    split at h
    next => cases h
    next =>
      split at h
      next => cases h; exact ⟨rfl, rfl⟩
      next => cases h

/-- The sites at the operations of a row are those that the operations are classified as. -/
theorem mem_lockSites {site : LockSite} (h : site ∈ p.lockSites config) :
    site.op ∈ p.allOps ∧ site.via = [] := by
  obtain ⟨classified, mem, is⟩ := List.mem_filterMap.mp h
  obtain ⟨o, ho, rfl⟩ := List.mem_map.mp mem
  split at is
  next found classified =>
    obtain rfl := Option.some.inj is
    obtain ⟨rfl, via⟩ := classify_site classified
    exact ⟨(List.mem_filter.mp ho).1, via⟩
  next => cases is

theorem lockSites_distinct (shape : p.Shape) :
    (p.lockSites config).Pairwise fun a b => a.key ≠ b.key := by
  have ops := (allOps_nodup shape).sublist (List.filter_sublist (p := p.isInScope config))
  rw [lockSites, classified, List.filterMap_map]
  refine (filterMap_pairwise_ne LockSite.op ?_ ops).imp ?_
  · intro o site is
    simp only [Function.comp_apply] at is
    split at is
    next classified =>
      obtain rfl := Option.some.inj is
      exact (classify_site classified).1
    next => cases is
  · intro a b other same
    exact other (List.cons.inj same).1

/-- A site at an operation of the program, with its lifetime. -/
structure Held (p : Program) (config : Config) (h : Holding) : Prop where
  mem_ops : h.site.op ∈ p.allOps
  lifetime : h.lifetime = p.lifetime config.patterns h.site

theorem held_direct {h : Holding} (hh : h ∈ (p.lockSites config).map (p.holding config)) :
    p.Held config h := by
  obtain ⟨site, mem, rfl⟩ := List.mem_map.mp hh
  exact ⟨(mem_lockSites mem).1, rfl⟩

theorem held_of_mem_wrappers {depth : Nat} {level : List Holding} {w : Holding}
    (hw : w ∈ p.wrappers config p.callGraph depth level) : p.Held config w := by
  induction depth generalizing level with
  | zero => exact absurd hw List.not_mem_nil
  | succ depth ih =>
    rw [wrappers] at hw
    rcases List.mem_append.mp hw with one | more
    · obtain ⟨below, _, made⟩ := List.mem_flatMap.mp one
      obtain ⟨walk, call, mem, guard, _, _, _, rfl⟩ := mem_wrappersOf.mp made
      exact ⟨(p.wrapperCalls_sublist below.site).subset mem, rfl⟩
    · exact ih more

theorem level_direct (config : Config) (shape : p.Shape) :
    Level 1 ((p.lockSites config).map (p.holding config)) where
  length := by
    intro h hh
    obtain ⟨site, mem, rfl⟩ := List.mem_map.mp hh
    change (site.op :: site.via).length = 1
    rw [(mem_lockSites mem).2]
    rfl
  distinct := List.pairwise_map.mpr (lockSites_distinct shape)

/-! ## All sites of a run -/

/-- The direct sites, and the synthetic ones if the settings ask for them. -/
def allHoldings (p : Program) (config : Config) : List Holding :=
  let direct := (p.lockSites config).map (p.holding config)
  direct ++ if config.propagateWrappers then p.wrapperSites config p.callGraph direct else []

theorem holdings_eq (p : Program) (config : Config) :
    p.holdings config =
      if (p.allHoldings config).any fun h => h.lifetime.isBroken then .error .missingOperand
      else .ok (sortBy (fun a b => a.site.less b.site) (p.allHoldings config)) := rfl

/-- Direct and synthetic sites together have no key twice. -/
theorem allHoldings_distinct (config : Config) (shape : p.Shape) :
    ((p.allHoldings config).Pairwise fun a b => a.site.key ≠ b.site.key) ∧
    ∀ h ∈ p.allHoldings config, p.Held config h := by
  have first := level_direct config shape
  obtain ⟨longer, distinct⟩ := first.wrappers config shape config.maxWrapperDepth
  unfold allHoldings
  cases propagate : config.propagateWrappers with
  | false => simpa only [Bool.false_eq_true, if_false, List.append_nil] using
      ⟨first.distinct, fun h hh => held_direct hh⟩
  | true =>
    simp only [if_true, wrapperSites_eq shape config first]
    refine ⟨List.pairwise_append.mpr ⟨first.distinct, distinct, fun a ha b hb same => ?_⟩,
      fun h hh => ?_⟩
    · have length := longer b hb
      rw [← same, first.length a ha] at length
      exact Nat.lt_irrefl _ length
    · rcases List.mem_append.mp hh with one | more
      · exact held_direct one
      · exact held_of_mem_wrappers more

/-- The sites of a finished program are found: in strictly increasing order of their keys, at
operations of the program, each with its lifetime. -/
theorem holdings_found (finished : p.Finished) (config : Config) :
    ∃ hs, p.holdings config = .ok hs ∧ (hs.Pairwise fun a b => a.site.key < b.site.key) ∧
      ∀ h ∈ hs, p.Held config h := by
  obtain ⟨distinct, held⟩ := allHoldings_distinct config finished.shape
  have whole : ((p.allHoldings config).any fun h => h.lifetime.isBroken) = false := by
    refine List.any_eq_false.mpr fun h hh => ?_
    rw [(held h hh).lifetime, not_isBroken finished]
    exact Bool.false_ne_true
  refine ⟨_, by rw [holdings_eq, whole]; rfl, ?_, fun h hh => held h (mem_sortBy.mp hh)⟩
  exact sortBy_increasing (fun a b => decide_eq_true_iff) distinct

end Relock.Program
