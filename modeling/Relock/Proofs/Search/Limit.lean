import Relock.Proofs.Search.Recursion

/-!
# The limit of steps

The settings limit the steps of a query. `run_withLimit` runs one search under two limits side by
side: the runs are the same, or the one with the lower limit is cut short, and then it told the
beginning of what the other tells, which goes on past the limit. So a limit takes away the end of
what a query tells, and says so.

The query without a limit is the recursion without one. A query that is not cut short gives its
answer (`Explores.unlimited`), and a limit that is as high as the fuel cuts nothing short, so that
the recursion without a limit always gives an answer.
-/

namespace Relock

/-- Settings with another limit of steps. -/
def Config.withLimit (config : Config) (limit : Nat) : Config := { config with maxSteps := limit }

namespace Search

variable {p : Program} {config : Config} {q : Query} {n m : Nat}

/-! ## What a run takes and tells -/

/-- What was told stays told, and a move takes one step at most. -/
theorem Move.later {s t : Search} (move : Move p config q s t) :
    s.reports <+: t.reports ∧ s.steps ≤ t.steps ∧ t.steps ≤ s.steps + 1 := by
  cases move with
  | report => exact ⟨List.prefix_append _ _, Nat.le_succ _, Nat.le_refl _⟩
  | finish | resume | cut | endBlock => exact ⟨List.prefix_refl _, Nat.le_refl _, Nat.le_succ _⟩
  | exhaust | release | enter | pass => exact ⟨List.prefix_refl _, Nat.le_succ _, Nat.le_refl _⟩

theorem run_later (fuel : Nat) (s : Search) :
    s.reports <+: (run p config q fuel s).reports ∧ s.steps ≤ (run p config q fuel s).steps ∧
      (run p config q fuel s).steps ≤ s.steps + fuel := by
  induction fuel generalizing s with
  | zero => exact ⟨List.prefix_refl _, Nat.le_refl _, Nat.le_refl _⟩
  | succ fuel ih =>
    cases next : s.advance p config q with
    | none =>
      simp only [run, next]
      exact ⟨List.prefix_refl _, Nat.le_refl _, Nat.le_add_right _ _⟩
    | some t =>
      simp only [run, next]
      obtain ⟨told, least, most⟩ := (Move.of_advance next).2.later
      obtain ⟨told', least', most'⟩ := ih t
      exact ⟨told.trans told', by omega, by omega⟩

/-- A search has taken one step more than the limit when its steps are used up, and is within the
limit else. -/
structure Metered (config : Config) (s : Search) : Prop where
  spent : s.truncated = true → s.steps = config.maxSteps + 1
  within : s.truncated = false → s.steps ≤ config.maxSteps

theorem Metered.step {s t : Search} (metered : Metered config s) (running : s.truncated = false)
    (move : Move p config q s t) : Metered config t := by
  have before := metered.within running
  cases move with
  | exhaust _ _ spent =>
    exact ⟨fun _ => Nat.le_antisymm (Nat.succ_le_succ before) spent, fun h => nomatch h⟩
  | finish | resume | cut | endBlock => exact ⟨metered.spent, metered.within⟩
  | report _ _ steps | release _ _ steps | enter _ _ steps | pass _ _ steps =>
    exact ⟨fun spent => absurd (running.symm.trans spent) Bool.noConfusion, fun _ => steps⟩

/-! ## Two limits -/

/-- A move that does not use up the steps is a move under a higher limit too. -/
theorem Move.raise (le : n ≤ m) {s t : Search} (move : Move p (config.withLimit n) q s t)
    (within : t.truncated = false) : Move p (config.withLimit m) q s t := by
  cases move with
  | finish stack hand rest => exact .finish stack hand rest
  | resume stack hand rest found => exact .resume stack hand rest found
  | cut stack hand rest found => exact .cut stack hand rest found
  | endBlock stack takes => exact .endBlock stack takes
  | exhaust => cases within
  | report stack takes steps found => exact .report stack takes (Nat.le_trans steps le) found
  | release stack takes steps unfound released =>
    exact .release stack takes (Nat.le_trans steps le) unfound released
  | enter stack takes steps unfound kept enters =>
    exact .enter stack takes (Nat.le_trans steps le) unfound kept enters
  | pass stack takes steps unfound kept stays =>
    exact .pass stack takes (Nat.le_trans steps le) unfound kept stays

/-- A search whose steps are used up told the beginning of what another one tells, which went past
the limit. -/
structure CutShort (limit : Nat) (s t : Search) : Prop where
  truncated : s.truncated = true
  told : s.reports <+: t.reports
  beyond : limit < t.steps

theorem visit_steps (s : Search) (frame : Frame) (below : List Frame) (o : OpId) :
    (s.visit p config q frame below o).steps = s.steps + 1 := by
  simp only [visit]
  split
  next => rfl
  next =>
    split
    next => rfl
    next =>
      split
      next => rfl
      next => split <;> rfl

/-- A search that has an operation to visit goes past a limit that it has reached. -/
theorem cutShort_of_takes {s t : Search} {frame : Frame} {below : List Frame} {b : BlockId}
    {o : OpId} {rest : List OpId} {pending : List Position} (running : s.truncated = false)
    (stack : s.stack = frame :: below) (takes : Takes frame ⟨b, o :: rest⟩ pending)
    (spent : n < s.steps + 1) (told : t.reports = s.reports) (truncated : t.truncated = true)
    (fuel : Nat) : CutShort n t (run p config q (fuel + 1) s) := by
  let visited := s.visit p config q { frame with pending := pending,
                                                 cursor := some ⟨b, rest⟩ } below o
  have next : s.advance p config q = some visited := advance_of_takes running stack takes
  have steps : visited.steps = s.steps + 1 := visit_steps s _ below o
  refine ⟨truncated, told ▸ (run_later _ s).1, ?_⟩
  simp only [run, next]
  calc n < visited.steps := steps ▸ spent
    _ ≤ (run p config q fuel visited).steps := (run_later fuel visited).2.1

theorem run_withLimit (le : n ≤ m) (fuel : Nat) (s : Search) :
    run p (config.withLimit n) q fuel s = run p (config.withLimit m) q fuel s ∨
      CutShort n (run p (config.withLimit n) q fuel s) (run p (config.withLimit m) q fuel s) := by
  induction fuel generalizing s with
  | zero => exact .inl rfl
  | succ fuel ih =>
    cases next : s.advance p (config.withLimit n) q with
    | none =>
      have done : s.advance p (config.withLimit m) q = none :=
        advance_eq_none (over_of_advance next)
      rw [run, run, next, done]
      exact .inl rfl
    | some t =>
      obtain ⟨running, move⟩ := Move.of_advance next
      cases spent : t.truncated with
      | false =>
        have same := (move.raise le spent).advance running
        rw [run, run, next, same]
        exact ih t
      | true =>
        have ended : run p (config.withLimit n) q (fuel + 1) s = t := by
          rw [run, next]
          exact run_of_advance_none (advance_eq_none (.inl spent)) fuel
        rw [ended]
        cases move with
        | exhaust stack takes beyond =>
          refine .inr (cutShort_of_takes running stack takes beyond ?_ ?_ fuel)
          · rfl
          · rfl
        | finish | resume | cut | endBlock | report | release | enter | pass =>
          exact absurd (running.symm.trans spent) Bool.noConfusion

/-! ## No limit -/

/-- What an operation is does not depend on a limit that is not reached. -/
theorem encounter_unlimited {s : Survey} {o : OpId} {met : Encounter}
    (meets : encounter p (config.withLimit n) (some n) q s o = met) (within : met ≠ .exhaust) :
    encounter p config none q s o = met := by
  unfold encounter at meets ⊢
  split at meets
  next => exact absurd meets.symm within
  next => exact meets

/-- An exploration that does not use up its steps is the one without a limit. -/
theorem Explores.unlimited {live : Lineage} {pending : List Position} {found found' : Bool}
    {s t : Survey} (explores : Explores p (config.withLimit n) (some n) q live pending found s
      found' t) (whole : t.truncated = false) :
    s.truncated = false ∧ Explores p config none q live pending found s found' t := by
  -- that nothing was used up before is what the exploration of a callee needs
  induction explores with
  | spent spent => cases whole.symm.trans spent
  | done running => exact ⟨running, .done running⟩
  | endBlock running _ ih => exact ⟨running, .endBlock running (ih whole).2⟩
  | exhaust => cases whole
  | report running meets _ ih =>
    exact ⟨running, .report running (encounter_unlimited meets nofun) (ih whole).2⟩
  | release running meets _ ih =>
    exact ⟨running, .release running (encounter_unlimited meets nofun) (ih whole).2⟩
  | pass running meets _ ih =>
    exact ⟨running, .pass running (encounter_unlimited meets nofun) (ih whole).2⟩
  | enter running meets _ _ inward ih =>
    obtain ⟨still, after⟩ := ih whole
    exact ⟨running, .enter running (encounter_unlimited meets nofun) (inward still).2 after⟩

end Search

/-! ## Queries -/

/-- What a limit of steps makes of the answer without one. -/
structure QueryResult.Limited (limit : Nat) (result whole : QueryResult) : Prop where
  told : result.reports <+: whole.reports
  truncated : result.truncated = true ↔ limit < whole.steps
  steps : result.truncated = true → result.steps = limit + 1
  whole : result.truncated = false → result = whole

namespace Program

variable {p : Program} {config : Config} {n m : Nat} {site : LockSite} {group : List LockSite}
    {releases : List OpId}

/-- A query under two limits gives one outcome, or is cut short under the lower one. -/
theorem query_withLimit (p : Program) (config : Config) (le : n ≤ m) (site : LockSite)
    (group : List LockSite) (releases : List OpId) :
    p.query (config.withLimit n) site group releases = p.query (config.withLimit m) site group
    releases ∨
      ∃ result result', p.query (config.withLimit n) site group releases = .ok result ∧
        p.query (config.withLimit m) site group releases = .ok result' ∧
        result.truncated = true ∧ result.reports <+: result'.reports ∧ n < result'.steps := by
  by_cases empty : group = []
  · exact .inl (by rw [empty]; rfl)
  · cases attached : (p.op site.op).block with
    | none =>
      refine .inl ?_
      unfold query
      rw [attached]
    | some b =>
      rw [query_of_block attached empty, query_of_block attached empty]
      rcases Search.run_withLimit le p.moveBound
        (p.startSearch site (p.block b).function b) with same | short
      · exact .inl (by rw [same])
      · exact .inr ⟨_, _, rfl, rfl, short.truncated, short.told, short.beyond⟩

/-- A query takes one step more than the limit if it is cut short, and is within the limit else. -/
theorem query_metered {result : QueryResult}
    (answered : p.query config site group releases = .ok result) :
    (result.truncated = true → result.steps = config.maxSteps + 1) ∧
      (result.truncated = false → result.steps ≤ config.maxSteps) ∧ result.steps ≤ p.moveBound := by
  unfold query at answered
  split at answered
  next =>
    cases answered
    exact ⟨nofun, fun _ => Nat.zero_le _, Nat.zero_le _⟩
  next =>
    split at answered
    next => cases answered
    next b _ =>
      cases answered
      have start : Search.Metered config (p.startSearch site (p.block b).function b) :=
        ⟨nofun, fun _ => Nat.zero_le _⟩
      have metered := Search.run_invariant _
        (@Search.Metered.step p config (p.queryAt site group releases b))
        p.moveBound start
      refine ⟨metered.spent, metered.within, ?_⟩
      exact Nat.le_trans (Search.run_later _ _).2.2 (Nat.le_of_eq (Nat.zero_add _))

/-- A query that is not cut short gives the answer without a limit. -/
theorem recursiveAnswer_unlimited (shape : p.Shape) {b : BlockId}
    (attached : (p.op site.op).block = some b) {result : QueryResult}
    (answered : p.query (config.withLimit n) site group releases = .ok result)
    (whole : result.truncated = false) :
    p.RecursiveAnswer config none site b group releases result := by
  have recursive := recursiveAnswer_of_query shape attached answered
  unfold RecursiveAnswer at recursive ⊢
  split at recursive
  next empty => rw [if_pos empty, recursive]
  next full =>
    rw [if_neg full]
    obtain ⟨found, s, explores, rfl⟩ := recursive
    exact ⟨found, s, (explores.unlimited whole).2, rfl⟩

/-- A limit that is as high as the fuel cuts nothing short. -/
theorem query_uncut (enough : p.moveBound ≤ n) {result : QueryResult}
    (answered : p.query (config.withLimit n) site group releases = .ok result) :
    result.truncated = false := by
  obtain ⟨spent, _, bound⟩ := query_metered answered
  cases cut : result.truncated with
  | false => rfl
  | true =>
    have steps : result.steps = n + 1 := spent cut
    omega

/-- The query of a site in a block without a limit, and what limits make of it. -/
theorem query_limited (shape : p.Shape) (config : Config) {b : BlockId}
    (attached : (p.op site.op).block = some b) (group : List LockSite) (releases : List OpId) :
    ∃ whole, (∀ {answer}, p.RecursiveAnswer config none site b group releases answer ↔
      answer = whole) ∧
      ∀ limit, ∃ result, p.query (config.withLimit limit) site group releases = .ok result ∧
        result.Limited limit whole := by
  obtain ⟨whole, full⟩ := query_answers (config.withLimit p.moveBound) attached group releases
  have unlimited := recursiveAnswer_unlimited shape attached full (query_uncut (Nat.le_refl _) full)
  have same {limit : Nat} {result : QueryResult}
      (answered : p.query (config.withLimit limit) site group releases = .ok result)
        (uncut : result.truncated = false) :
      result = whole :=
    unlimited.unique (recursiveAnswer_unlimited shape attached answered uncut)
  refine ⟨whole, ⟨unlimited.unique, fun equal => equal ▸ unlimited⟩, fun limit => ?_⟩
  obtain ⟨result, answered⟩ := query_answers (config.withLimit limit) attached group releases
  refine ⟨result, answered, ?_⟩
  obtain ⟨spent, within, _⟩ := query_metered answered
  cases cut : result.truncated with
  | false =>
    obtain rfl := same answered cut
    have inside : ¬ limit < result.steps := Nat.not_lt_of_le (within cut)
    refine ⟨List.prefix_refl _, ⟨fun h => absurd (cut.symm.trans h) Bool.noConfusion,
      fun h => absurd h inside⟩, spent, ?_⟩
    exact fun _ => rfl
  | true =>
    -- compared with the query under a limit that is as high and cuts nothing short
    obtain ⟨high, answeredHigh⟩ :=
      query_answers (config.withLimit (max limit p.moveBound)) attached group releases
    have uncut := query_uncut (Nat.le_max_right _ _) answeredHigh
    obtain rfl := same answeredHigh uncut
    have le : limit ≤ max limit p.moveBound := Nat.le_max_left _ _
    rcases query_withLimit p config le site group releases with equal | ⟨_, _, low, up, _,
      told, beyond⟩
    · rw [answered, answeredHigh] at equal
      obtain rfl := Except.ok.inj equal
      exact absurd (uncut.symm.trans cut) Bool.noConfusion
    · obtain rfl := Except.ok.inj (answered.symm.trans low)
      obtain rfl := Except.ok.inj (answeredHigh.symm.trans up)
      exact ⟨told, ⟨fun _ => beyond, fun _ => cut⟩, spent,
        fun h => absurd (h.symm.trans cut) Bool.noConfusion⟩

end Program
end Relock
