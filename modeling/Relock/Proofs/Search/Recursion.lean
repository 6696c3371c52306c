import Relock.Proofs.Search.Termination

/-!
# The search as a recursion

The frames of a search are the activations of a recursive procedure. `Explores` is that procedure,
given by what each of its activations comes to: it walks the positions of one function, and a call
that is entered is an exploration of its own, with the functions and calls that lead there as
arguments. Its limit of steps is optional; without one nothing is cut short. An exploration has one
outcome (`Explores.unique`).

`explores_of_run` follows a search from the time at which a function is on top of the stack to the
time at which it is walked to its end, and finds there what the exploration of that function comes
to. It is an induction on the fuel of the run, since a call that is entered takes part of the fuel
and leaves the rest for the caller.

`Stacked` carries along a run that the functions of the stack are the live ones of the recursion, so
that a chain read off the entries spells the stack (`Aligned`).
-/

namespace Relock
namespace Search

/-- The functions in which an exploration stands, from the site's down, and the calls that lead from
each to the next. -/
structure Lineage where
  chain : List FunctionId
  calls : List OpId

/-- The lineage of a function that the last one calls. -/
def Lineage.call (live : Lineage) (o : OpId) (f : FunctionId) : Lineage :=
  ⟨live.chain ++ [f], live.calls ++ [o]⟩

/-- What all explorations of a query share: the blocks and functions taken up, the steps, and what
was found. -/
structure Survey where
  blocks : List BlockId := []
  functions : List FunctionId
  steps : Nat := 0
  truncated : Bool := false
  reports : List Report := []

/-- The answer of an exploration of the site's function. -/
def Survey.result (s : Survey) : QueryResult :=
  { reports := s.reports, truncated := s.truncated, steps := s.steps }

namespace Survey

def step (s : Survey) : Survey := { s with steps := s.steps + 1 }

def exhaust (s : Survey) : Survey := { s.step with truncated := true }

/-- A member of the group was met, by the functions and calls of a lineage. -/
def report (s : Survey) (q : Query) (live : Lineage) (second : LockSite) : Survey :=
  { s.step with reports := s.reports ++ [{ first := q.site, second := second, chain := live.chain,
                                           calls := live.calls }] }

def enter (s : Survey) (f : FunctionId) (entry : BlockId) : Survey :=
  { s.step with functions := f :: s.functions, blocks := entry :: s.blocks }

/-- The successors of a block that have not been taken up. -/
def fresh (s : Survey) (p : Program) (b : BlockId) : List BlockId :=
  (p.block b).successors.filter fun succ => succ ∉ s.blocks

def takeUp (s : Survey) (blocks : List BlockId) : Survey := { s with blocks := blocks ++ s.blocks }

end Survey

/-- What an operation is to an exploration. -/
inductive Encounter where
  | exhaust
  | report (second : LockSite)
  | release
  | pass
  | enter (f : FunctionId) (entry : BlockId)

/-- The step that an operation takes has to be within the limit. Then it is looked at as a member of
the group, as a release and as a call, in this order. -/
def encounter (p : Program) (config : Config) (limit : Option Nat) (q : Query) (s : Survey)
    (o : OpId) : Encounter :=
  if limit.any (· < s.steps + 1) then .exhaust
  else match q.members.find? fun member => member.op = o with
    | some second => .report second
    | none =>
      if o ∈ q.releases then .release
      else match enterable? p config s.functions (p.op o) with
        | none => .pass
        | some (f, entry) => .enter f entry

/-- `Explores p config limit q live pending found s found' t`: in the function at the end of `live`,
with the positions `pending` left to walk, the first of them next, something found there so far or
not (`found`) and `s` known, the exploration ends with `found'` and `t`. -/
inductive Explores (p : Program) (config : Config) (limit : Option Nat) (q : Query) :
    Lineage → List Position → Bool → Survey → Bool → Survey → Prop where
  | spent {live pending found s} (spent : s.truncated = true) :
      Explores p config limit q live pending found s found s
  | done {live found s} (running : s.truncated = false) :
      Explores p config limit q live [] found s found s
  | endBlock {live b pending found s found' t} (running : s.truncated = false)
      (rest : Explores p config limit q live ((s.fresh p b).map (fromStart p) ++ pending) found
        (s.takeUp (s.fresh p b)) found' t) :
      Explores p config limit q live (⟨b, []⟩ :: pending) found s found' t
  | exhaust {live b o ops pending found s} (running : s.truncated = false)
      (meets : encounter p config limit q s o = .exhaust) :
      Explores p config limit q live (⟨b, o :: ops⟩ :: pending) found s found s.exhaust
  -- a report and a release end the path
  | report {live b o ops pending found s second found' t} (running : s.truncated = false)
      (meets : encounter p config limit q s o = .report second)
      (rest : Explores p config limit q live pending true (s.report q live second) found' t) :
      Explores p config limit q live (⟨b, o :: ops⟩ :: pending) found s found' t
  | release {live b o ops pending found s found' t} (running : s.truncated = false)
      (meets : encounter p config limit q s o = .release)
      (rest : Explores p config limit q live pending found s.step found' t) :
      Explores p config limit q live (⟨b, o :: ops⟩ :: pending) found s found' t
  | pass {live b o ops pending found s found' t} (running : s.truncated = false)
      (meets : encounter p config limit q s o = .pass)
      (rest : Explores p config limit q live (⟨b, ops⟩ :: pending) found s.step found' t) :
      Explores p config limit q live (⟨b, o :: ops⟩ :: pending) found s found' t
  -- so does a call in which something is found
  | enter {live b o ops pending found s f entry inside u found' t} (running : s.truncated = false)
      (meets : encounter p config limit q s o = .enter f entry)
      (inner : Explores p config limit q (live.call o f) [fromStart p entry] false
        (s.enter f entry) inside u)
      (rest : Explores p config limit q live (if inside then pending
        else ⟨b, ops⟩ :: pending) (inside || found) u
        found' t) :
      Explores p config limit q live (⟨b, o :: ops⟩ :: pending) found s found' t

/-! ## An exploration has one outcome -/

section Unique

variable {p : Program} {config : Config} {limit : Option Nat} {q : Query} {live : Lineage}
    {b : BlockId}
  {pending : List Position} {found found' found'' : Bool} {s t u : Survey}

theorem Explores.at_op {o : OpId} {ops : List OpId} (running : s.truncated = false)
    (h : Explores p config limit q live (⟨b, o :: ops⟩ :: pending) found s found' t) :
    match encounter p config limit q s o with
    | .exhaust => found' = found ∧ t = s.exhaust
    | .report second =>
      Explores p config limit q live pending true (s.report q live second) found' t
    | .release => Explores p config limit q live pending found s.step found' t
    | .pass => Explores p config limit q live (⟨b, ops⟩ :: pending) found s.step found' t
    | .enter f entry => ∃ inside u,
      Explores p config limit q (live.call o f) [fromStart p entry] false
        (s.enter f entry) inside u ∧
        Explores p config limit q live (if inside then pending
          else ⟨b, ops⟩ :: pending) (inside || found) u found' t := by
  cases h with
  | spent spent => cases running.symm.trans spent
  | exhaust _ meets => rw [meets]; exact ⟨rfl, rfl⟩
  | report _ meets rest => rw [meets]; exact rest
  | release _ meets rest => rw [meets]; exact rest
  | pass _ meets rest => rw [meets]; exact rest
  | enter _ meets inner rest => rw [meets]; exact ⟨_, _, inner, rest⟩

/-- What has used up its steps stays so. -/
theorem Explores.of_spent (spent : s.truncated = true)
    (h : Explores p config limit q live pending found s found' t) : found' = found ∧ t = s := by
  cases h with
  | spent => exact ⟨rfl, rfl⟩
  | done => exact ⟨rfl, rfl⟩
  | endBlock running | exhaust running | report running | release running | pass running
  | enter running =>
    cases running.symm.trans spent

theorem Explores.unique (first : Explores p config limit q live pending found s found' t)
    (second : Explores p config limit q live pending found s found'' u) : found'' = found' ∧
    u = t := by
  induction first generalizing found'' u with
  | spent spent => exact second.of_spent spent
  | done running =>
    cases second with
    | spent => exact ⟨rfl, rfl⟩
    | done => exact ⟨rfl, rfl⟩
  | endBlock running _ ih =>
    cases second with
    | spent spent => cases running.symm.trans spent
    | endBlock _ rest => exact ih rest
  | exhaust running meets =>
    have same := second.at_op running
    rw [meets] at same
    exact same
  | report running meets _ ih | release running meets _ ih | pass running meets _ ih =>
    have rest := second.at_op running
    rw [meets] at rest
    exact ih rest
  | enter running meets _ _ inward ih =>
    have called := second.at_op running
    rw [meets] at called
    obtain ⟨inside, v, inner, rest⟩ := called
    obtain ⟨rfl, rfl⟩ := inward inner
    exact ih rest

end Unique

/-! ## Frames are activations -/

variable {p : Program} {config : Config} {q : Query}

/-- What a search shares between its frames. -/
def survey (s : Search) : Survey :=
  { blocks := s.blocks, functions := s.functions, steps := s.steps, truncated := s.truncated,
    reports := s.reports }

/-- The positions that a frame still has to walk, the next one first. -/
def todo (frame : Frame) : List Position := frame.cursor.toList ++ frame.pending

theorem todo_of_takes {frame : Frame} {position : Position} {pending : List Position}
    (takes : Takes frame position pending) : todo frame = position :: pending := by
  unfold todo
  cases takes with
  | hand hand => rw [hand]; rfl
  | next hand rest => rw [hand, rest]; rfl

theorem todo_eq_nil {frame : Frame} : todo frame = [] ↔ frame.cursor = none ∧
    frame.pending = [] := by
  unfold todo
  rw [List.append_eq_nil_iff, Option.toList_eq_nil_iff]

/-- A run from `s` comes to `t` when the function on top of the stack is walked to its end, or the
steps are used up on the way. -/
structure Walked (p : Program) (config : Config) (q : Query) (fuel : Nat) (s : Search)
    (f : FunctionId) (below : List Frame) (found : Bool) (t : Search) : Prop where
  sound : Sound p config q t
  entries : s.entries ⊆ t.entries
  ran : ∃ left ≤ fuel, run p config q fuel s = run p config q left t
  stack : t.truncated = false → t.stack = { function := f, pending := [], found := found } :: below

theorem Walked.trans {fuel left : Nat} {s t u : Search} {f : FunctionId} {below : List Frame}
    {found : Bool} (entries : s.entries ⊆ t.entries) (fewer : left ≤ fuel)
    (ran : run p config q fuel s = run p config q left t)
    (walked : Walked p config q left t f below found u) :
    Walked p config q fuel s f below found u where
  sound := walked.sound
  entries := List.Subset.trans entries walked.entries
  ran := by
    obtain ⟨rest, le, same⟩ := walked.ran
    exact ⟨rest, Nat.le_trans le fewer, ran.trans same⟩
  stack := walked.stack

/-- A move of a search that is not over takes one unit of fuel. -/
theorem run_of_advance {s t : Search} (next : s.advance p config q = some t) {fuel : Nat}
    (ends : (run p config q fuel s).advance p config q = none) :
    ∃ left, fuel = left + 1 ∧ run p config q fuel s = run p config q left t := by
  cases fuel with
  | zero =>
    rw [run, next] at ends
    cases ends
  | succ left => exact ⟨left, rfl, by rw [run, next]⟩

theorem advance_of_stack (p : Program) (config : Config) (q : Query) {s : Search} {frame : Frame}
    {below : List Frame} (running : s.truncated = false) (stack : s.stack = frame :: below) :
    ∃ t, s.advance p config q = some t := by
  cases next : s.advance p config q with
  | some t => exact ⟨t, rfl⟩
  | none =>
    rcases over_of_advance next with spent | walked
    · rw [running] at spent
      cases spent
    · rw [stack] at walked
      cases walked

/-- A search that walks the function on top of its stack does what the recursion does in that
function. -/
theorem explores_of_run (shape : p.Shape)
    (home : p.functionOf? q.site.op = some q.root) (fuel : Nat) {s : Search}
    {frame : Frame} {below : List Frame} {live : Lineage} (sound : Sound p config q s)
    (running : s.truncated = false) (stack : s.stack = frame :: below)
    (descends : Descends q.root s.entries live.chain live.calls frame.function)
    (ends : (run p config q fuel s).advance p config q = none) :
    ∃ found t, Explores p config (some config.maxSteps) q live (todo frame) frame.found s.survey
    found t.survey ∧
      Walked p config q fuel s frame.function below found t := by
  induction fuel using Nat.strongRecOn generalizing s frame below live with
  | ind fuel ih =>
  by_cases done : todo frame = []
  · obtain ⟨hand, rest⟩ := todo_eq_nil.mp done
    refine ⟨frame.found, s, ?_, sound, List.Subset.refl _, ⟨fuel, Nat.le_refl _, rfl⟩, fun _ => ?_⟩
    · rw [done]
      exact .done running
    · rw [stack, ← hand, ← rest]
  · obtain ⟨t, next⟩ := advance_of_stack p config q running stack
    obtain ⟨left, rfl, ran⟩ := run_of_advance next ends
    obtain ⟨_, move⟩ := Move.of_advance next
    have sound' := sound.step shape home running move
    have runs : s.survey.truncated = false := running
    have allowed (within : s.steps + 1 ≤ config.maxSteps) :
        (some config.maxSteps).any (· < s.survey.steps + 1) = false :=
          decide_eq_false (Nat.not_lt_of_le within)
    have functions : s.survey.functions = s.functions := rfl
    -- the same function is walked on from a later state
    have goOn {u : Search} {frame' : Frame} {fewer : Nat}
        (ranTo : run p config q (left + 1) s = run p config q fewer u)
        (fuel : fewer ≤ left) (soundAt : Sound p config q u) (runningAt : u.truncated = false)
        (stackAt : u.stack = frame' :: below) (same : frame'.function = frame.function)
          (entries : s.entries ⊆ u.entries)
        (rest : ∀ {found t},
          Explores p config (some config.maxSteps) q live (todo frame') frame'.found u.survey
            found t →
          Explores p config (some config.maxSteps) q live (todo frame) frame.found s.survey
            found t) :
        ∃ found t, Explores p config (some config.maxSteps) q live (todo frame) frame.found s.survey
          found t.survey ∧
          Walked p config q (left + 1) s frame.function below found t := by
      obtain ⟨found, t, explored, walked⟩ :=
        ih fewer (Nat.lt_succ_of_le fuel) soundAt runningAt stackAt
        (same ▸ descends.mono entries) (ranTo ▸ ends)
      exact ⟨found, t, rest explored, (same ▸ walked).trans entries (Nat.le_succ_of_le fuel) ranTo⟩
    cases move with
    | finish stack' hand rest =>
      rw [stack] at stack'
      cases stack'
      exact absurd (todo_eq_nil.mpr ⟨hand, rest⟩) done
    | resume stack' hand rest =>
      rw [stack] at stack'
      cases stack'
      exact absurd (todo_eq_nil.mpr ⟨hand, rest⟩) done
    | cut stack' hand rest =>
      rw [stack] at stack'
      cases stack'
      exact absurd (todo_eq_nil.mpr ⟨hand, rest⟩) done
    | endBlock stack' takes =>
      rw [stack] at stack'
      cases stack'
      refine goOn ran (Nat.le_refl _) sound' running rfl rfl (List.Subset.refl _) fun explored => ?_
      rw [todo_of_takes takes]
      exact .endBlock runs explored
    | exhaust stack' takes spent =>
      rw [stack] at stack'
      cases stack'
      refine ⟨frame.found, _, ?_, sound', List.Subset.refl _, ⟨left, Nat.le_succ _, ran⟩,
        fun h => nomatch h⟩
      have beyond : (some config.maxSteps).any (· < s.survey.steps + 1) = true :=
        decide_eq_true spent
      rw [todo_of_takes takes]
      exact .exhaust runs (by rw [encounter, beyond, if_pos rfl])
    | report stack' takes within found =>
      rw [stack] at stack'
      cases stack'
      refine goOn ran (Nat.le_refl _) sound' running rfl rfl (List.Subset.refl _) fun explored => ?_
      have chain := (chainTo_of_descends sound.grown descends).1
      rw [todo_of_takes takes]
      refine .report runs (by rw [encounter, allowed within, if_neg Bool.false_ne_true, found]) ?_
      simp only [chain] at explored
      exact explored
    | release stack' takes within unfound released =>
      rw [stack] at stack'
      cases stack'
      refine goOn ran (Nat.le_refl _) sound' running rfl rfl (List.Subset.refl _) fun explored => ?_
      rw [todo_of_takes takes]
      refine .release runs ?_ explored
      rw [encounter, allowed within, if_neg Bool.false_ne_true, unfound]
      exact if_pos released
    | pass stack' takes within unfound kept stays =>
      rw [stack] at stack'
      cases stack'
      refine goOn ran (Nat.le_refl _) sound' running rfl rfl (List.Subset.refl _) fun explored => ?_
      rw [todo_of_takes takes]
      refine .pass runs ?_ explored
      rw [encounter, allowed within, if_neg Bool.false_ne_true, unfound]
      simp only [if_neg kept, functions, stays]
    | @enter _ _ b o rest pending f entry stack' takes within unfound kept enters =>
      rw [stack] at stack'
      cases stack'
      let caller : Frame := { frame with pending := pending, cursor := some ⟨b, rest⟩ }
      have inward : Descends q.root (⟨f, frame.function, o⟩ :: s.entries) (live.call o f).chain
          (live.call o f).calls f :=
        .call (e := ⟨f, frame.function, o⟩) (descends.mono (List.subset_cons_self _ _))
          List.mem_cons_self
      obtain ⟨inside, u, explored, walked⟩ :=
        ih left (Nat.lt_succ_self _) sound' running rfl inward (ran ▸ ends)
      have entered {found : Bool} {t : Survey}
          (after : Explores p config (some config.maxSteps) q live
          (if inside then pending else ⟨b, rest⟩ :: pending) (inside || frame.found) u.survey
            found t) :
          Explores p config (some config.maxSteps) q live (todo frame) frame.found s.survey
            found t := by
        rw [todo_of_takes takes]
        refine .enter runs ?_ explored after
        rw [encounter, allowed within, if_neg Bool.false_ne_true, unfound]
        simp only [if_neg kept, functions, enters]
      have older : s.entries ⊆ u.entries := fun e he => walked.entries (List.mem_cons_of_mem _ he)
      obtain ⟨fewer, le, inner⟩ := walked.ran
      have ran := ran.trans inner
      cases still : u.truncated with
      | true =>
        refine ⟨inside || frame.found, u, entered (.spent still), walked.sound, older,
          ⟨fewer, Nat.le_succ_of_le le, ran⟩, fun h => ?_⟩
        rw [still] at h
        cases h
      | false =>
        -- the call returns, and the caller's path goes on or ends
        have back : u.advance p config q =
            some (u.leave { function := f, pending := [], found := inside } (caller :: below)) := by
          simp only [advance, still, walked.stack still, Bool.false_eq_true, if_false]
          rfl
        obtain ⟨last, rfl, returned⟩ := run_of_advance back (ran ▸ ends)
        have soundBack := walked.sound.step shape home still (Move.of_advance back).2
        cases inside with
        | true =>
          exact goOn (ran.trans returned) (Nat.le_of_succ_le le) soundBack still rfl rfl
            older entered
        | false =>
          exact goOn (ran.trans returned) (Nat.le_of_succ_le le) soundBack still rfl rfl
            older entered

/-! ## The functions of the stack -/

/-- The functions of a stack, from the root down. -/
def liveChain (stack : List Frame) : List FunctionId := (stack.map (·.function)).reverse

/-- The functions of the stack lead from the root to the one on top by entries. -/
def Stacked (q : Query) (s : Search) : Prop :=
  ∀ {frame below}, s.stack = frame :: below →
    ∃ calls, Descends q.root s.entries (liveChain s.stack) calls frame.function

@[simp] theorem liveChain_cons (frame : Frame) (below : List Frame) :
    liveChain (frame :: below) = liveChain below ++ [frame.function] := by
  simp only [liveChain, List.map_cons, List.reverse_cons]

theorem Stacked.step {s t : Search} (stacked : Stacked q s) (move : Move p config q s t) :
    Stacked q t := by
  cases move with
  | finish => exact fun h => nomatch h
  | resume stack =>
    intro frame below h
    cases h
    obtain ⟨calls, descends⟩ := stacked stack
    rw [stack, liveChain_cons] at descends
    exact descends.of_call (by simp)
  | @cut _ caller below stack =>
    intro frame below' h
    cases h
    obtain ⟨calls, descends⟩ := stacked stack
    rw [stack, liveChain_cons] at descends
    show ∃ calls, Descends q.root s.entries (liveChain (caller :: below)) calls caller.function
    exact descends.of_call (by simp)
  | @enter caller _ _ o _ _ f _ stack _ _ _ _ enters =>
    intro frame below h
    cases h
    obtain ⟨calls, descends⟩ := stacked stack
    have more := descends.mono (List.subset_cons_self ⟨f, caller.function, o⟩ s.entries)
    rw [stack] at more
    exact ⟨_, by simpa using more.call (e := ⟨f, caller.function, o⟩) List.mem_cons_self⟩
  | endBlock stack | exhaust stack | report stack | release stack | pass stack =>
    intro frame below h
    cases h
    obtain ⟨calls, descends⟩ := stacked stack
    rw [stack] at descends
    exact ⟨calls, descends⟩

theorem stacked_startSearch (p : Program) (q : Query) (b : BlockId) :
    Stacked q (p.startSearch q.site q.root b) := by
  intro frame below h
  cases h
  exact ⟨[], .root⟩

/-- The chain of the function on top of the stack is read off the entries as it stands on the stack,
and never comes back to a function that it met. -/
structure Aligned (q : Query) (s : Search) : Prop where
  chain : ∀ {frame below}, s.stack = frame :: below →
    (chainTo q.root s.entries frame.function).1 = liveChain s.stack
  straight : ∀ {frame below}, s.stack = frame :: below →
    ¬ ComesBack q.root s.entries [frame.function] frame.function

theorem Stacked.aligned {s : Search} (stacked : Stacked q s) (grown : Grown q.root s.entries) :
    Aligned q s where
  chain stack := by
    obtain ⟨calls, descends⟩ := stacked stack
    rw [(chainTo_of_descends grown descends).1]
  straight stack := by
    obtain ⟨calls, descends⟩ := stacked stack
    exact (chainTo_of_descends grown descends).2

/-! ## Whole queries -/

/-- What a run ends with when the root is walked to its end. -/
theorem Walked.survey_run {fuel : Nat} {s t : Search} {f : FunctionId} {found : Bool}
    (walked : Walked p config q fuel s f [] found t)
    (ends : (run p config q fuel s).advance p config q = none) :
    (run p config q fuel s).survey = t.survey := by
  obtain ⟨left, _, ran⟩ := walked.ran
  rw [ran] at ends ⊢
  cases still : t.truncated with
  | true => rw [run_of_advance_none (advance_eq_none (.inl still))]
  | false =>
    have last : t.advance p config q = some { t with stack := [] } := by
      simp only [advance, still, walked.stack still, Bool.false_eq_true, if_false, leave]
    obtain ⟨fewer, rfl, ended⟩ := run_of_advance last ends
    rw [ended, run_of_advance_none (advance_eq_none (.inr rfl))]
    rfl

end Search

/-- What the recursion answers to the query of a site in a block, with a limit of steps or without
one. -/
def Program.RecursiveAnswer (p : Program) (config : Config) (limit : Option Nat) (site : LockSite)
    (b : BlockId) (group : List LockSite) (releases : List OpId) (answer : QueryResult) : Prop :=
  if group.isEmpty then answer = {}
  else
    let f := (p.block b).function
    let start : Position := ⟨b, ((p.block b).ops.dropWhile (· ≠ site.op)).drop 1⟩
    ∃ found s, Search.Explores p config limit (p.queryAt site group releases b) ⟨[f],
      []⟩ [start] false
      { functions := [f] } found s ∧ s.result = answer

namespace Program

variable {p : Program} {config : Config} {limit : Option Nat} {site : LockSite} {b : BlockId}
    {group : List LockSite}
  {releases : List OpId}

theorem RecursiveAnswer.unique {first second : QueryResult}
    (h : p.RecursiveAnswer config limit site b group releases first)
    (h' : p.RecursiveAnswer config limit site b group releases second) : second = first := by
  unfold RecursiveAnswer at h h'
  split at h
  next empty =>
    rw [if_pos empty] at h'
    rw [h, h']
  next full =>
    rw [if_neg full] at h'
    obtain ⟨_, s, explores, rfl⟩ := h
    obtain ⟨_, t, explores', rfl⟩ := h'
    rw [(explores.unique explores').2]

/-- The answer of a query is the answer of the recursion. -/
theorem recursiveAnswer_of_query (shape : p.Shape) (attached : (p.op site.op).block = some b)
    {result : QueryResult} (answered : p.query config site group releases = .ok result) :
    p.RecursiveAnswer config (some config.maxSteps) site b group releases result := by
  unfold RecursiveAnswer
  by_cases empty : group = []
  · subst empty
    cases answered
    rfl
  · have full : group.isEmpty = false := by simpa using empty
    rw [query_of_block attached empty] at answered
    cases answered
    let q := p.queryAt site group releases b
    let live : Search.Lineage := ⟨[q.root], []⟩
    have home : p.functionOf? q.site.op = some q.root := functionOf?_of_block attached
    have mem : q.site.op ∈ (p.block b).ops := shape.mem_of_op attached
    have ends : (Search.run p config q p.moveBound (p.startSearch q.site q.root b)).advance p config
        q = none :=
      Search.advance_eq_none (Search.run_over shape home mem rfl)
    have descends : Search.Descends q.root (p.startSearch q.site q.root b).entries live.chain
        live.calls q.root := .root
    obtain ⟨found, t, explored, walked⟩ := Search.explores_of_run shape home p.moveBound
      (Search.sound_startSearch home mem) rfl rfl descends ends
    have ended := walked.survey_run ends
    simp only [full, Bool.false_eq_true, if_false]
    rw [← ended] at explored
    exact ⟨found, _, explored, rfl⟩

end Program

/-- A query about a site that stands in a block gives the reports of the recursion, in its order,
with its steps and cut short where it is. In every state on the way the chain of the function on top
of the stack, as the entries give it, spells the functions of the stack and never comes back to a
function that it met. -/
theorem query_recursive {read : Sexp.Reader} {file text : String} {p : Program}
    (loaded : Program.loadWith read file text = .ok p) (config : Config)
    {site : LockSite} {b : BlockId} (attached : (p.op site.op).block = some b)
    (group : List LockSite) (releases : List OpId) :
    (∃ result, p.query config site group releases = .ok result ∧
      ∀ {answer}, p.RecursiveAnswer config (some config.maxSteps) site b group releases answer ↔
        answer = result) ∧
    ∀ moves, Search.Aligned (p.queryAt site group releases b)
      (Search.run p config (p.queryAt site group releases b) moves
        (p.startSearch site (p.block b).function b)) := by
  have shape := Program.shape_of_load loaded
  obtain ⟨result, answered⟩ := Program.query_answers config attached group releases
  have recursive := Program.recursiveAnswer_of_query shape attached answered
  refine ⟨⟨result, answered, recursive.unique, fun same => same ▸ recursive⟩, fun moves => ?_⟩
  have home := Program.functionOf?_of_block attached
  obtain ⟨stacked, sound⟩ := Search.run_invariant
    (fun s => Search.Stacked (p.queryAt site group releases b) s ∧
      Search.Sound p config (p.queryAt site group releases b) s)
    (fun ⟨stacked, sound⟩ running move =>
      ⟨stacked.step move, sound.step shape home running move⟩) moves
    ⟨Search.stacked_startSearch p _ b, Search.sound_startSearch home (shape.mem_of_op attached)⟩
  exact stacked.aligned sound.grown

theorem query_recursive_nested : ∃ p result, Program.load "nested" nestedText = .ok p ∧
    (p.op 6).block = some 5 ∧
    result.reports.map (·.calls) = [[10, 19]] ∧
    p.query nestedConfig (nestedSite 6) [nestedSite 22] [13] = .ok result ∧
    ∀ {answer}, p.RecursiveAnswer nestedConfig (some nestedConfig.maxSteps)
    (nestedSite 6) 5 [nestedSite 22] [13] answer ↔
      answer = result := by
  obtain ⟨p, result, loaded, attached, answered, calls, _⟩ := nestedText_query
  obtain ⟨⟨result', answered', recursive⟩, _⟩ :=
    @query_recursive _ _ _ p loaded nestedConfig (nestedSite 6) 5 attached [nestedSite 22] [13]
  obtain rfl := Except.ok.inj (answered.symm.trans answered')
  exact ⟨p, result, loaded, attached, calls, answered, recursive⟩

end Relock
