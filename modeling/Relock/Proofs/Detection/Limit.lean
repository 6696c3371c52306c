import Relock.Proofs.Detection.Run
import Relock.Proofs.Search.Limit

/-!
# Runs under two limits

Only queries look at the limit of steps. Two runs that differ in it have the same sites and groups,
and they differ in what a query of the one with the lower limit was cut short of. Such a query
leaves a note: a run without one is the same under every higher limit.

`Detection.Tighter` relates the two runs, and each checker keeps it, whatever the row of checkers
is.
-/

namespace Relock

/-- No note is about a query that used up its steps. -/
def Uncut (notes : List Note) : Prop := ∀ note ∈ notes, note.kind ≠ .truncated

theorem uncut_append {notes more : List Note} : Uncut (notes ++ more) ↔ Uncut notes ∧ Uncut more :=
  List.forall_mem_append

/-- Each report has one with its key among others. -/
def Report.Retold (reports others : List Report) : Prop := ∀ r ∈ reports, ∃ r' ∈ others,
    r'.key = r.key

theorem Report.Retold.refl (reports : List Report) : Report.Retold reports reports :=
  fun r hr => ⟨r, hr, rfl⟩

namespace Program

variable {p : Program} {config : Config} {n m : Nat}

/-! ## The sites -/

theorem propagate_withLimit (g : CallGraph) (state : Propagation) :
    p.propagate (config.withLimit n) g state = p.propagate config g state := by
  fun_induction p.propagate config g state with
  | case1 seen found => rw [propagate]
  | case2 holding depth queue seen found ih =>
    rw [propagate, ← ih]
    rfl

/-- The sites do not depend on the limit. -/
theorem holdings_withLimit (p : Program) (config : Config) (limit : Nat) :
    p.holdings (config.withLimit limit) = p.holdings config := by
  have wrapped (direct : List Holding) :
      p.wrapperSites (config.withLimit limit) p.callGraph direct =
        p.wrapperSites config p.callGraph direct :=
    propagate_withLimit _ _
  simp only [holdings, wrapped]
  rfl

/-! ## The round of queries -/

theorem siteQuery_withLimit (le : n ≤ m) (groups : Groups) (held : Holding)
    (uncut : Uncut (p.siteQuery (config.withLimit n) groups held).notes) :
    p.siteQuery (config.withLimit n) groups held = p.siteQuery (config.withLimit m) groups
    held := by
  unfold siteQuery at uncut ⊢
  rcases query_withLimit p config le held.site (groups.group held.site)
    held.lifetime.releaseSet with
    same | ⟨result, _, answered, _, cut, _⟩
  · rw [same] at uncut ⊢
    cases answered : p.query (config.withLimit m) held.site (groups.group held.site)
      held.lifetime.releaseSet with
    | error _ => rfl
    | ok result =>
      cases cut : result.truncated with
      | false => simp only [cut, Bool.false_eq_true, if_false]
      | true =>
        simp only [answered, cut, if_true] at uncut
        exact absurd rfl (uncut _ List.mem_cons_self)
  · simp only [answered, cut, if_true] at uncut
    exact absurd rfl (uncut _ List.mem_cons_self)

theorem queryRound_retold (le : n ≤ m) (groups : Groups) (holdings : List Holding) :
    Report.Retold (p.queryRound (config.withLimit n) groups holdings).reports
      (p.queryRound (config.withLimit m) groups holdings).reports := by
  intro r hr
  obtain ⟨held, mem, result, answered, told⟩ := mem_queryRound hr
  rcases query_withLimit p config le held.site (groups.group held.site)
    held.lifetime.releaseSet with
    same | ⟨_, result', low, high, _, front, _⟩
  · exact exists_mem_queryRound mem (same ▸ answered) told
  · obtain rfl := Except.ok.inj (answered.symm.trans low)
    exact exists_mem_queryRound mem high (front.subset told)

theorem queryRound_withLimit (le : n ≤ m) (groups : Groups) (holdings : List Holding)
    (uncut : Uncut (p.queryRound (config.withLimit n) groups holdings).notes) :
    p.queryRound (config.withLimit n) groups holdings = p.queryRound (config.withLimit m) groups
    holdings := by
  have rounds : holdings.map (p.siteQuery (config.withLimit n) groups) =
      holdings.map (p.siteQuery (config.withLimit m) groups) := by
    refine List.map_congr_left fun held mem => siteQuery_withLimit le groups held fun note hn => ?_
    exact uncut note (List.mem_flatMap.mpr ⟨_, List.mem_map_of_mem mem, hn⟩)
  unfold queryRound
  rw [rounds]

end Program

/-! ## Checkers -/

/-- What a run under a lower limit has in common with another run. -/
structure Detection.Tighter (d d' : Detection) : Prop where
  holdings : d.phases.holdings = d'.phases.holdings
  groups : d.phases.groups = d'.phases.groups
  memo : d.memo = d'.memo
  told : Report.Retold d.reports d'.reports
  /-- Without a query that was cut short the two runs are the same. -/
  same : Uncut d.notes → d = d'

theorem Detection.Tighter.refl (d : Detection) : d.Tighter d :=
  ⟨rfl, rfl, rfl, .refl _, fun _ => rfl⟩

/-- What a double-lock check under a lower limit has in common with another one. -/
structure Evidence.Tighter (e e' : Evidence) : Prop where
  holdings : e.phases.holdings = e'.phases.holdings
  groups : e.phases.groups = e'.phases.groups
  memo : e.memo = e'.memo
  failure : e.failure = e'.failure
  told : Option.Rel (fun round round' => Report.Retold round.reports round'.reports)
    e.phases.queries e'.phases.queries
  same : Uncut e.notes → e = e'

variable {p : Program} {config : Config} {n m : Nat}

theorem Program.evidence_tighter (p : Program) (config : Config) (le : n ≤ m) (oracle : Oracle)
    (memo : Oracle.Memo) :
    (p.evidence (config.withLimit n) oracle memo).Tighter
    (p.evidence (config.withLimit m) oracle memo) := by
  -- the phases are settled before the two sides are compared: they differ in the round of queries
  -- alone
  have notes (limit : Nat) : p.lockNotes (config.withLimit limit) = p.lockNotes config := rfl
  cases found : p.holdings config with
  | error failure =>
    have both (limit : Nat) : p.evidence (config.withLimit limit) oracle memo =
        { notes := p.lockNotes config, memo := memo, failure := some failure } := by
      simp only [evidence, holdings_withLimit, found, notes]
    rw [both, both]
    exact ⟨rfl, rfl, rfl, rfl, .none, fun _ => rfl⟩
  | ok holdings =>
    cases grouped : p.aliasGroups oracle memo (holdings.map (·.site)) with
    | error failure =>
      have both (limit : Nat) : p.evidence (config.withLimit limit) oracle memo =
          { phases := { holdings := some holdings }, notes := p.lockNotes config, memo := memo,
            failure := some failure } := by
        simp only [evidence, holdings_withLimit, found, grouped, notes]
      rw [both, both]
      exact ⟨rfl, rfl, rfl, rfl, .none, fun _ => rfl⟩
    | ok answer =>
      have both (limit : Nat) : p.evidence (config.withLimit limit) oracle memo =
          let round := p.queryRound (config.withLimit limit) answer.1 holdings
          { phases := { holdings := some holdings, groups := some answer.1, queries := some round }
            notes := p.lockNotes config ++ p.groupNotes (holdings.map (·.site)) ++ round.notes,
              memo := answer.2 } := by
        simp only [evidence, holdings_withLimit, found, grouped, notes]
      rw [both, both]
      refine ⟨rfl, rfl, rfl, rfl, .some (queryRound_retold le answer.1 holdings), fun uncut => ?_⟩
      dsimp only at uncut ⊢
      rw [queryRound_withLimit le answer.1 holdings (uncut_append.mp uncut).2]

/-- Later phases that tell less, over earlier ones that tell less, tell less. -/
theorem Phases.retold_over {later later' earlier earlier' : Phases}
    (new : Option.Rel (fun round round' => Report.Retold round.reports round'.reports) later.queries
      later'.queries)
    (old : Report.Retold ((earlier.queries.map (·.reports)).getD [])
      ((earlier'.queries.map (·.reports)).getD [])) :
    Report.Retold (((later.over earlier).queries.map (·.reports)).getD [])
      (((later'.over earlier').queries.map (·.reports)).getD []) := by
  unfold Phases.over
  generalize later.queries = round at new ⊢
  generalize later'.queries = round' at new ⊢
  cases new with
  | none => exact old
  | some told => exact told

/-- A checker keeps the two runs together. -/
theorem Detection.Tighter.runChecker (le : n ≤ m) (oracle : Oracle) (suppressions : Suppressions)
    {d d' : Detection} (tighter : d.Tighter d') (checker : Checker) :
    (p.runChecker (config.withLimit n) oracle suppressions d checker).Tighter
      (p.runChecker (config.withLimit m) oracle suppressions d' checker) := by
  obtain ⟨holdings, groups, memo, told, same⟩ := tighter
  cases checker with
  | standalone name diagnose =>
    exact ⟨holdings, groups, memo, told, fun uncut => by rw [same uncut]; rfl⟩
  | failing name reason recorded =>
    exact ⟨holdings, groups, memo, told,
      fun uncut => by rw [same (uncut_append.mp (uncut_append.mp uncut).1).1]; rfl⟩
  | doubleLock =>
    have evidence := p.evidence_tighter config le oracle d.memo
    simp only [Program.runChecker, ← memo]
    generalize p.evidence (config.withLimit n) oracle d.memo = e at evidence ⊢
    generalize p.evidence (config.withLimit m) oracle d.memo = e' at evidence ⊢
    have equal (uncut : Uncut (d.notes ++ e.notes)) : d = d' ∧ e = e' := by
      obtain ⟨before, now⟩ := uncut_append.mp uncut
      exact ⟨same before, evidence.same now⟩
    have holdings' : (e.phases.over d.phases).holdings = (e'.phases.over d'.phases).holdings := by
      simp only [Phases.over, holdings, evidence.holdings]
    have groups' : (e.phases.over d.phases).groups = (e'.phases.over d'.phases).groups := by
      simp only [Phases.over, groups, evidence.groups]
    have told' := Phases.retold_over evidence.told told
    rw [← evidence.failure]
    cases e.failure with
    | none =>
      refine ⟨holdings', groups', evidence.memo, told', fun uncut => ?_⟩
      obtain ⟨rfl, rfl⟩ := equal uncut
      rfl
    | some failure =>
      refine ⟨holdings', groups', evidence.memo, told', fun uncut => ?_⟩
      obtain ⟨rfl, rfl⟩ := equal (uncut_append.mp uncut).1
      rfl

theorem Program.detect_tighter (le : n ≤ m) (oracle : Oracle) (suppressions : Suppressions)
    (checkers : List Checker) :
    (p.detect (config.withLimit n) oracle suppressions checkers).Tighter
      (p.detect (config.withLimit m) oracle suppressions checkers) := by
  suffices ∀ {d d' : Detection}, d.Tighter d' →
      (checkers.foldl (p.runChecker (config.withLimit n) oracle suppressions) d).Tighter
      (checkers.foldl (p.runChecker (config.withLimit m) oracle suppressions) d') from this
        (.refl {})
  intro d d' tighter
  induction checkers generalizing d d' with
  | nil => exact tighter
  | cons checker checkers ih => exact ih (tighter.runChecker le oracle suppressions checker)

/-- A limit of steps cuts off the end of what a query tells, and leaves a note. The query of a site
in a block has an answer without a limit; under a limit it is cut short if that answer takes more
steps, and else gives it. A higher limit only adds reports at the end. A run under a lower limit has
the sites of one under a higher limit and tells nothing that the other does not tell; without a
query that was cut short they are the same. -/
theorem detect_withLimit {read : Sexp.Reader} {file text : String}
    (loaded : Program.loadWith read file text = .ok p) (config : Config) (le : n ≤ m) :
    (∀ {site b}, (p.op site.op).block = some b → ∀ group releases, ∃ whole few more,
      (∀ {answer}, p.RecursiveAnswer config none site b group releases answer ↔ answer = whole) ∧
      p.query (config.withLimit n) site group releases = .ok few ∧ few.Limited n whole ∧
      p.query (config.withLimit m) site group releases = .ok more ∧ more.Limited m whole ∧
      few.reports <+: more.reports) ∧
    ∀ oracle suppressions checkers,
      (p.detect (config.withLimit n) oracle suppressions checkers).Tighter
        (p.detect (config.withLimit m) oracle suppressions checkers) := by
  have shape := Program.shape_of_load loaded
  refine ⟨fun {site b} attached group releases => ?_, Program.detect_tighter le⟩
  obtain ⟨whole, unlimited, limited⟩ := Program.query_limited shape config attached group releases
  obtain ⟨few, low, fewLimited⟩ := limited n
  obtain ⟨more, high, moreLimited⟩ := limited m
  refine ⟨whole, few, more, unlimited, low, fewLimited, high, moreLimited, ?_⟩
  rcases Program.query_withLimit p config le site group releases with same | ⟨_, _, low', high', _,
    front, _⟩
  · rw [low, high] at same
    obtain rfl := Except.ok.inj same
    exact List.prefix_refl _
  · obtain rfl := Except.ok.inj (low.symm.trans low')
    obtain rfl := Except.ok.inj (high.symm.trans high')
    exact front

set_option maxRecDepth 4000 in
/-- With three steps the searches from both acquisitions of `nestedText` stop short and a note says
so; with four the second acquisition is found. -/
theorem detect_withLimit_nested :
    ∃ p whole few more, Program.load "nested" nestedText = .ok p ∧ 3 ≤ 4 ∧
    (p.op 6).block = some 5 ∧
    (∀ {answer}, p.RecursiveAnswer nestedConfig none (nestedSite 6) 5 [nestedSite 22] [13] answer ↔
      answer = whole) ∧
    p.query (nestedConfig.withLimit 3) (nestedSite 6) [nestedSite 22] [13] = .ok few ∧
    few.Limited 3 whole ∧
    p.query (nestedConfig.withLimit 4) (nestedSite 6) [nestedSite 22] [13] = .ok more ∧
    more.Limited 4 whole ∧
    few.reports <+: more.reports ∧ (few.truncated, more.truncated, more.reports.length) =
      (true, false, 1) ∧
    (p.detect (nestedConfig.withLimit 3) .structural {} [.doubleLock]).notes.map (·.message) =
      ["search from take in outer stopped after 3 steps; results may be incomplete",
        "search from take in inner stopped after 3 steps; results may be incomplete"] ∧
    (p.detect (nestedConfig.withLimit 4) .structural {} [.doubleLock]).notes.length = 0 ∧
    (p.detect (nestedConfig.withLimit 3) .structural {} [.doubleLock]).reports.length = 0 ∧
    (p.detect (nestedConfig.withLimit 4) .structural {} [.doubleLock]).reports.map
    (·.second.op) = [22] ∧
    (p.detect (nestedConfig.withLimit 3) .structural {} [.doubleLock]).Tighter
      (p.detect (nestedConfig.withLimit 4) .structural {} [.doubleLock]) := by
  obtain ⟨p, loaded, checked⟩ : ∃ p, Program.load "nested" nestedText = .ok p ∧
      decide ((p.op 6).block = some 5 ∧
        ((p.query (nestedConfig.withLimit 3) (nestedSite 6) [nestedSite 22] [13]).toOption.map
          (·.truncated)) = some true ∧
        ((p.query (nestedConfig.withLimit 4) (nestedSite 6) [nestedSite 22] [13]).toOption.map
          fun more =>
          (more.truncated, more.reports.length)) = some (false, 1) ∧
        (p.detect (nestedConfig.withLimit 3) .structural {} [.doubleLock]).notes.map (·.message) =
          ["search from take in outer stopped after 3 steps; results may be incomplete",
            "search from take in inner stopped after 3 steps; results may be incomplete"] ∧
        (p.detect (nestedConfig.withLimit 4) .structural {} [.doubleLock]).notes.length = 0 ∧
        (p.detect (nestedConfig.withLimit 3) .structural {} [.doubleLock]).reports.length = 0 ∧
        (p.detect (nestedConfig.withLimit 4) .structural {} [.doubleLock]).reports.map
          (·.second.op) = [22]) = true :=
    Program.exists_of_load rfl (by decide +kernel)
  obtain ⟨attached, cut, uncut, notes, noNotes, nothing, found⟩ := of_decide_eq_true checked
  obtain ⟨queries, runs⟩ := detect_withLimit loaded nestedConfig (by decide : 3 ≤ 4)
  obtain ⟨whole, few, more, unlimited, low, fewLimited, high, moreLimited, front⟩ :=
    @queries (nestedSite 6) 5 attached [nestedSite 22] [13]
  rw [low] at cut
  rw [high] at uncut
  have told : (few.truncated, more.truncated, more.reports.length) = (true, false, 1) :=
    Prod.ext (Option.some.inj cut) (Option.some.inj uncut)
  exact ⟨p, whole, few, more,
    loaded, by decide, attached, unlimited, low, fewLimited, high, moreLimited, front, told,
    notes, noNotes, nothing, found, runs .structural {} [.doubleLock]⟩

end Relock
