import Relock.Proofs.Search.Chain
import Relock.Proofs.Search.Flow
import Relock.Proofs.Search.Move
import Relock.Proofs.Source.Decoder

/-!
# Reports stand on paths

A report names the functions from the site's down to the one where the lock is taken again, and the
calls between them. `Report.BornOut` says that the program bears it out: each call stands in its
function and goes to the next one, and in each function a clear way of the control flow leads from
where the walk begins to the call, in the last one to the second acquisition.

The invariant `Sound` says the same of what a search keeps: a clear way leads to every position
still to be walked, and one to every call that was entered. Chains are read off the entries at the
moment of the report, so that the invariant says nothing about chains.
-/

namespace Relock

/-- Where the walk of a function begins in a query: right after the site in the site's own function,
at the entry of any other. -/
inductive Program.Opens (p : Program) (site : LockSite) (f : FunctionId) : Position → Prop where
  | after {b before rest} : p.functionOf? site.op = some f →
      (p.block b).ops = before ++ site.op :: rest →
      Opens p site f ⟨b, rest⟩
  | entry {b} : p.functionOf? site.op ≠ some f → (p.function f).entryBlock? = some b →
      Opens p site f (Search.fromStart p b)

open Search in
/-- The program bears a report out. -/
structure Report.BornOut (p : Program) (config : Config) (site : LockSite) (group : List LockSite)
    (releases : List OpId) (r : Report) : Prop where
  first : r.first = site
  second : r.second ∈ group
  starts : r.chain.head? = p.functionOf? site.op
  ends : r.chain.getLast? = p.functionOf? r.second.op
  distinct : r.chain.Nodup
  calls_length : r.calls.length + 1 = r.chain.length
  locations_length : (r.locations p).length = r.chain.length + 1
  /-- The call at a place stands in the function at that place, goes to the next one, and is
  reached. -/
  call : ∀ {i c}, r.calls[i]? = some c → ∃ f g start, r.chain[i]? = some f ∧
    r.chain[i + 1]? = some g ∧
    p.functionOf? c = some f ∧ MayEnter p config c g ∧ ¬ Halts group releases c ∧
    p.Opens site f start ∧ p.Leg group releases start c
  /-- The second acquisition is reached in the last function. -/
  arrival : ∃ f start, r.chain.getLast? = some f ∧ p.Opens site f start ∧
    p.Leg group releases start r.second.op

namespace Program.Opens

variable {p : Program} {site : LockSite} {f : FunctionId} {position : Position}

theorem inside (shape : p.Shape) (opens : p.Opens site f position) : p.Inside f position := by
  cases opens with
  | @after b before rest home ops =>
    have mem : site.op ∈ (p.block b).ops := by rw [ops]; simp
    have block := shape.op_of_mem mem
    rw [functionOf?_of_block block, Option.some.injEq] at home
    exact ⟨home ▸ shape.mem_blocks_of_op block, ops ▸ ⟨before ++ [site.op], by simp⟩⟩
  | entry _ first => exact inside_fromStart (List.mem_of_mem_head? first)

end Program.Opens

/-- The order in which a group is given does not matter for what is clear. -/
theorem Report.BornOut.of_queryMembers {p : Program} {config : Config} {site : LockSite}
    {group : List LockSite} {releases : List OpId} {r : Report}
    (h : r.BornOut p config site (Program.queryMembers group) releases) :
    r.BornOut p config site group releases where
  first := h.first
  second := mem_sortBy.mp h.second
  starts := h.starts
  ends := h.ends
  distinct := h.distinct
  calls_length := h.calls_length
  locations_length := h.locations_length
  call hc := by simpa only [halts_queryMembers, Program.leg_queryMembers] using h.call hc
  arrival := by simpa only [Program.leg_queryMembers] using h.arrival

namespace Search

variable {p : Program} {config : Config} {q : Query}

/-- A clear way leads to a position from where the walk of its function begins. -/
def Reached (p : Program) (q : Query) (f : FunctionId) (position : Position) : Prop :=
  ∃ start, p.Opens q.site f start ∧ p.Clear q.members q.releases start position

/-- A function was entered by a call that was reached and may be entered. -/
structure Entered (p : Program) (config : Config) (q : Query) (e : Entry) : Prop where
  enters : MayEnter p config e.call e.callee
  passed : ¬ Halts q.members q.releases e.call
  reached : ∃ b rest, Reached p q e.caller ⟨b, e.call :: rest⟩

/-- What a frame keeps: its function is known, and the positions it holds are reached. -/
structure SoundFrame (p : Program) (q : Query)
    (functions : List FunctionId) (frame : Frame) : Prop where
  known : frame.function ∈ functions
  reached : ∀ {position}, Holds frame position → Reached p q frame.function position

/-- What a search keeps. When the steps are used up the operation in hand is not looked at, so that
nothing is said of the frames from then on. -/
structure Sound (p : Program) (config : Config) (q : Query) (s : Search) : Prop where
  functions : s.functions = known q.root s.entries
  grown : Grown q.root s.entries
  entered : ∀ e ∈ s.entries, Entered p config q e
  frames : s.truncated = false → ∀ frame ∈ s.stack, SoundFrame p q s.functions frame
  reports : ∀ r ∈ s.reports, r.BornOut p config q.site q.members q.releases

/-! ## A report -/

/-- The report of an acquisition at a reached position is borne out. -/
theorem bornOut_of_descends (shape : p.Shape) (home : p.functionOf? q.site.op = some q.root)
    {entries : List Entry} (entered : ∀ e ∈ entries, Entered p config q e)
    {chain : List FunctionId} {calls : List OpId} {f : FunctionId}
    (descends : Descends q.root entries chain calls f) (distinct : chain.Nodup)
    {second : LockSite} (member : second ∈ q.members) {b : BlockId} {rest : List OpId}
    (reached : Reached p q f ⟨b, second.op :: rest⟩) :
    ({ first := q.site, second := second, chain := chain, calls := calls } : Report).BornOut
      p config q.site q.members q.releases where
  first := rfl
  second := member
  starts := descends.head?.trans home.symm
  ends := by
    obtain ⟨start, opens, clear⟩ := reached
    rw [descends.getLast?, (clear.inside shape (opens.inside shape)).functionOf? shape]
  distinct := distinct
  calls_length := descends.length
  locations_length := by
    simp only [Report.locations, List.length_map, List.length_cons, List.length_append,
      List.length_nil, ← descends.length]
  call := by
    intro i c hc
    obtain ⟨e, he, rfl, caller, callee⟩ := descends.call_at hc
    have entered := entered e he
    obtain ⟨b, rest, start, opens, clear⟩ := entered.reached
    have leg : p.Leg q.members q.releases start e.call := ⟨b, rest, clear⟩
    exact ⟨e.caller, e.callee, start, caller, callee, leg.functionOf? shape (opens.inside shape),
      entered.enters, entered.passed, opens, leg⟩
  arrival := by
    obtain ⟨start, opens, clear⟩ := reached
    exact ⟨f, start, descends.getLast?, opens, b, rest, clear⟩

/-! ## What a move keeps -/

theorem Reached.pass {f : FunctionId} {b : BlockId} {o : OpId} {rest : List OpId}
    (reached : Reached p q f ⟨b, o :: rest⟩)
    (passed : ¬ Halts q.members q.releases o) : Reached p q f ⟨b, rest⟩ := by
  obtain ⟨start, opens, clear⟩ := reached
  exact ⟨start, opens, clear.pass passed⟩

theorem Reached.jump {f : FunctionId} {b succ : BlockId} (reached : Reached p q f ⟨b, []⟩)
    (h : succ ∈ (p.block b).successors) : Reached p q f (fromStart p succ) := by
  obtain ⟨start, opens, clear⟩ := reached
  exact ⟨start, opens, clear.jump h⟩

/-- A frame that goes on with some of the positions it held. -/
theorem SoundFrame.of_holds {functions : List FunctionId} {frame next : Frame}
    (sound : SoundFrame p q functions frame) (same : next.function = frame.function)
    (holds : ∀ {position}, Holds next position → Holds frame position) :
    SoundFrame p q functions next where
  known := same ▸ sound.known
  reached h := same ▸ sound.reached (holds h)

/-- A frame that puts a reached position in hand and keeps some of those it held. -/
theorem SoundFrame.take {functions : List FunctionId} {frame : Frame} {position taken : Position}
    {pending : List Position}
    (sound : SoundFrame p q functions frame) (takes : Takes frame taken pending)
    (reached : Reached p q frame.function position) :
    SoundFrame p q functions { frame with pending := pending, cursor := some position } where
  known := sound.known
  reached := by
    rintro other (hand | later)
    · obtain rfl := Option.some.inj hand
      exact reached
    · exact sound.reached (takes.holds_pending later)

/-- A frame that drops the position it took. -/
theorem SoundFrame.drop {functions : List FunctionId} {frame : Frame} {taken : Position}
    {pending : List Position} {found : Bool} (sound : SoundFrame p q functions frame)
    (takes : Takes frame taken pending) :
    SoundFrame p q functions { frame with pending := pending, cursor := none, found := found } :=
  sound.of_holds rfl fun h => by
    rcases h with hand | later
    · simp only [reduceCtorEq] at hand
    · exact takes.holds_pending later

theorem SoundFrame.mono {functions more : List FunctionId} {frame : Frame}
    (sound : SoundFrame p q functions frame) (sub : functions ⊆ more) :
    SoundFrame p q more frame where
  known := sub sound.known
  reached := sound.reached

/-- An operation that is neither an acquisition of the group nor a release does not end a path. -/
theorem not_halts {o : OpId} (unfound : (q.members.find? fun member => member.op = o) = none)
    (kept : o ∉ q.releases) : ¬ Halts q.members q.releases o := by
  rintro (acquires | released)
  · exact not_acquires_of_find? unfound acquires
  · exact kept released

/-- Every move keeps a search sound. -/
theorem Sound.step (shape : p.Shape) (home : p.functionOf? q.site.op = some q.root) {s t : Search}
    (sound : Sound p config q s) (running : s.truncated = false) (move : Move p config q s t) :
    Sound p config q t := by
  have frames := sound.frames running
  cases move with
  | finish =>
    exact { sound with frames := fun _ frame h => absurd h List.not_mem_nil }
  | resume stack =>
    rw [stack] at frames
    exact { sound with frames := fun _ => (List.forall_mem_cons.mp frames).2 }
  | cut stack =>
    rw [stack] at frames
    obtain ⟨_, caller, below⟩ := by simpa only [List.forall_mem_cons] using frames
    refine { sound with frames := fun _ => List.forall_mem_cons.mpr ⟨?_, below⟩ }
    refine caller.of_holds rfl fun h => ?_
    rcases h with hand | later
    · simp only [reduceCtorEq] at hand
    · exact .inr later
  | @endBlock frame below b pending stack takes =>
    rw [stack] at frames
    obtain ⟨top, below⟩ := List.forall_mem_cons.mp frames
    refine { sound with frames := fun _ => List.forall_mem_cons.mpr ⟨⟨top.known, ?_⟩, below⟩ }
    rintro position (hand | later)
    · simp only [reduceCtorEq] at hand
    · rcases List.mem_append.mp later with fresh | old
      · obtain ⟨succ, hs, rfl⟩ := List.mem_map.mp fresh
        exact (top.reached takes.holds).jump (List.mem_filter.mp hs).1
      · exact top.reached (takes.holds_pending old)
  | exhaust => exact { sound with frames := fun h => absurd h Bool.noConfusion }
  | @report frame below b o rest pending second stack takes _ found =>
    rw [stack] at frames
    obtain ⟨top, below⟩ := List.forall_mem_cons.mp frames
    obtain ⟨member, rfl⟩ := acquires_of_find? found
    obtain ⟨descends, distinct⟩ := chainTo_descends sound.grown (sound.functions ▸ top.known)
    refine { sound with frames := fun _ => List.forall_mem_cons.mpr ⟨top.drop takes, below⟩,
                        reports := ?_ }
    intro r hr
    rcases List.mem_append.mp hr with old | new
    · exact sound.reports r old
    · rw [List.mem_singleton.mp new]
      exact bornOut_of_descends shape home sound.entered descends distinct member
        (top.reached takes.holds)
  | release stack takes =>
    rw [stack] at frames
    obtain ⟨top, below⟩ := List.forall_mem_cons.mp frames
    exact { sound with frames := fun _ => List.forall_mem_cons.mpr ⟨top.drop takes, below⟩ }
  | @enter frame below b o rest pending f entry stack takes _ unfound kept enters =>
    rw [stack] at frames
    obtain ⟨top, below⟩ := List.forall_mem_cons.mp frames
    obtain ⟨enters, first, fresh⟩ := mayEnter_of_enterable? enters
    have reached := top.reached takes.holds
    have passed := not_halts unfound kept
    have new : f ∉ known q.root s.entries := sound.functions ▸ fresh
    have other : p.functionOf? q.site.op ≠ some f := by
      rw [home]
      rintro ⟨⟩
      exact new (root_mem_known _ _)
    have older : s.functions ⊆ f :: s.functions := List.subset_cons_self _ _
    have callee : SoundFrame p q (f :: s.functions) { function := f,
                                                      pending := [fromStart p entry] } := by
      refine ⟨List.mem_cons_self, ?_⟩
      rintro position (hand | later)
      · simp only [reduceCtorEq] at hand
      · rw [List.mem_singleton.mp later]
        exact ⟨_, .entry other first, [], .refl, fun _ h => absurd h List.not_mem_nil⟩
    exact {
      functions := by rw [sound.functions]; rfl
      grown := ⟨new, sound.functions ▸ top.known, sound.grown⟩
      entered := List.forall_mem_cons.mpr ⟨⟨enters, passed, b, rest, reached⟩, sound.entered⟩
      frames := fun _ => List.forall_mem_cons.mpr ⟨callee, List.forall_mem_cons.mpr
        ⟨(top.take takes (reached.pass passed)).mono older, fun x hx => (below x hx).mono older⟩⟩
      reports := sound.reports }
  | pass stack takes _ unfound kept =>
    rw [stack] at frames
    obtain ⟨top, below⟩ := List.forall_mem_cons.mp frames
    have passed := (top.reached takes.holds).pass (not_halts unfound kept)
    exact { sound with frames := fun _ => List.forall_mem_cons.mpr ⟨top.take takes passed, below⟩ }

/-- A query begins sound. -/
theorem sound_startSearch (home : p.functionOf? q.site.op = some q.root) {b : BlockId}
    (mem : q.site.op ∈ (p.block b).ops) : Sound p config q (p.startSearch q.site q.root b) where
  functions := rfl
  grown := trivial
  entered _ h := absurd h List.not_mem_nil
  frames := by
    intro _ frame h
    obtain ⟨before, ops⟩ := Program.split_at_first mem
    rw [List.mem_singleton.mp h]
    refine ⟨List.mem_cons_self, ?_⟩
    rintro position (hand | later)
    · simp only [reduceCtorEq] at hand
    · rw [List.mem_singleton.mp later]
      exact ⟨_, .after home ops, [], .refl, fun _ h => absurd h List.not_mem_nil⟩
  reports _ h := absurd h List.not_mem_nil

end Search

/-- The program bears out each report of a query. -/
theorem bornOut_of_query {p : Program} (shape : p.Shape) {config : Config} {site : LockSite}
    {b : BlockId} (attached : (p.op site.op).block = some b) {group : List LockSite}
    {releases : List OpId} {result : QueryResult}
    (answered : p.query config site group releases = .ok result) {r : Report}
    (hr : r ∈ result.reports) :
    r.BornOut p config site group releases := by
  by_cases empty : group = []
  · rw [empty] at answered
    cases answered
    exact absurd hr List.not_mem_nil
  · rw [Program.query_of_block attached empty] at answered
    cases answered
    have home := Program.functionOf?_of_block attached
    have start : Search.Sound p config (p.queryAt site group releases b)
        (p.startSearch site (p.block b).function b) :=
      Search.sound_startSearch home (shape.mem_of_op attached)
    have final := Search.run_invariant _ (Search.Sound.step shape home) p.moveBound start
    exact (final.reports r hr).of_queryMembers

/-- A query about a site that stands in a block gives a result, and the program bears out each of
its reports. -/
theorem query_bornOut {read : Sexp.Reader} {file text : String} {p : Program}
    (loaded : Program.loadWith read file text = .ok p) (config : Config) {site : LockSite}
    {b : BlockId} (attached : (p.op site.op).block = some b) (group : List LockSite)
    (releases : List OpId) :
    ∃ result, p.query config site group releases = .ok result ∧
      ∀ r ∈ result.reports, r.BornOut p config site group releases := by
  have shape := Program.shape_of_load loaded
  obtain ⟨result, answered⟩ := Program.query_answers config attached group releases
  exact ⟨result, answered, fun r hr => bornOut_of_query shape attached answered hr⟩

/-- A lock that `outer` takes and still holds when `inner` takes it again, two calls further down
and in a loop. -/
def nestedText : String := "(module nested (global m (ptr i64))
(function \"outer\" (params)
  (block a (call g i8 \"take\" m) (br b)) (block b (call _ void \"mid\") (condbr 1 b c))
  (block c (call _ void \"drop\" g) (ret)))
(function \"mid\" (params) (block a (call _ void \"inner\") (ret)))
(function \"inner\" (params) (block a (call g i8 \"take\" m) (call _ void \"mid\") (ret))))"

/-- The acquisition by a call of the lock of a text whose first item is the lock. -/
def nestedSite (op : OpId) : LockSite :=
  { op := op, guard := op + 1, resource := 1, mode := .exclusive, wrapped := false,
    pattern := "take" }

/-- A table of `take` and `drop` alone. -/
def nestedConfig : Config :=
  { patterns := { locks := [{ name := "take", matchers := [⟨.equals, "take"⟩] }]
                  apis := [{ kind := .autoDrop, matchers := [⟨.equals, "drop"⟩] }] } }

set_option maxRecDepth 4000 in
theorem nestedText_query : ∃ p result, Program.load "nested" nestedText = .ok p ∧
    (p.op 6).block = some 5 ∧
    p.query nestedConfig (nestedSite 6) [nestedSite 22] [13] = .ok result ∧
    result.reports.map (·.calls) = [[10, 19]] ∧ result.truncated = false ∧
    p.globalNamed? "m" = some 1 ∧ p.lockSites nestedConfig = [nestedSite 6, nestedSite 22] := by
  obtain ⟨p, loaded, checked⟩ : ∃ p, Program.load "nested" nestedText = .ok p ∧
      decide ((p.op 6).block = some 5 ∧
        ((p.query nestedConfig (nestedSite 6) [nestedSite 22] [13]).toOption.map fun result =>
          (result.reports.map (·.calls), result.truncated)) = some ([[10, 19]], false) ∧
        p.globalNamed? "m" = some 1 ∧
        p.lockSites nestedConfig = [nestedSite 6, nestedSite 22]) = true :=
    Program.exists_of_load rfl (by decide +kernel)
  obtain ⟨attached, found, lock, sites⟩ := of_decide_eq_true checked
  cases answered : p.query nestedConfig (nestedSite 6) [nestedSite 22] [13] with
  | error _ => rw [answered] at found; cases found
  | ok result =>
    rw [answered] at found
    obtain ⟨calls, whole⟩ := Prod.mk.inj (Option.some.inj found)
    exact ⟨p, result, loaded, attached, answered, calls, whole, lock, sites⟩

/-- The two sites of `nestedText` take the lock `m`. -/
theorem query_bornOut_nested : ∃ p result, Program.load "nested" nestedText = .ok p ∧
    p.globalNamed? "m" = some 1 ∧ p.lockSites nestedConfig = [nestedSite 6, nestedSite 22] ∧
    (p.op 6).block = some 5 ∧
    p.query nestedConfig (nestedSite 6) [nestedSite 22] [13] = .ok result ∧
    result.reports.map (·.calls) = [[10, 19]] ∧
    ∀ r ∈ result.reports, r.BornOut p nestedConfig (nestedSite 6) [nestedSite 22] [13] := by
  obtain ⟨p, result, loaded, attached, answered, calls, _, lock, sites⟩ := nestedText_query
  obtain ⟨result', answered', bornOut⟩ :=
    @query_bornOut _ _ _ p loaded nestedConfig (nestedSite 6) 5 attached [nestedSite 22] [13]
  obtain rfl := Except.ok.inj (answered.symm.trans answered')
  exact ⟨p, result, loaded, lock, sites, attached, answered, calls, bornOut⟩

end Relock
