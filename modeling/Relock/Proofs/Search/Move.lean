import Relock.Search

/-!
# The moves of a search

`Search.advance` picks the position in hand, or else the next pending one, and acts on its first
operation. `Move` lists what can come of that, one constructor for each outcome and with everything
that the outcome depends on, so that a property of queries is shown by one case analysis over moves
and never by opening `advance` again.

`run_invariant` carries what every move keeps through a whole run. `run_stops` says that a run whose
moves all lower a measure stops before its fuel runs out.
-/

namespace Relock.Search

/-- A frame takes up a position: the one in hand, or else the first pending one. The last argument
is what stays pending. -/
inductive Takes (frame : Frame) : Position → List Position → Prop where
  | hand {position} : frame.cursor = some position → Takes frame position frame.pending
  | next {position pending} : frame.cursor = none → frame.pending = position :: pending →
      Takes frame position pending

/-- A frame still has a position to walk. -/
def Holds (frame : Frame) (position : Position) : Prop :=
  frame.cursor = some position ∨ position ∈ frame.pending

theorem Takes.holds {frame : Frame} {position : Position} {pending : List Position}
    (takes : Takes frame position pending) : Holds frame position := by
  cases takes with
  | hand hand => exact .inl hand
  | next _ rest => exact .inr (rest ▸ List.mem_cons_self)

theorem Takes.holds_pending {frame : Frame} {position : Position} {pending : List Position}
    (takes : Takes frame position pending) {other : Position} (h : other ∈ pending) :
    Holds frame other := by
  cases takes with
  | hand _ => exact .inr h
  | next _ rest => exact .inr (rest ▸ List.mem_cons_of_mem _ h)

/-- A call that a search may enter: it goes to a function with a body, and not to one of the pattern
table unless the settings say so. -/
structure MayEnter (p : Program) (config : Config) (o : OpId) (f : FunctionId) : Prop where
  target : (p.op o).target? = some f
  body : (p.function f).isDeclaration = false
  permitted : config.descendIntoLibrary = true ∨
    config.patterns.isLibrary (p.function f).name = false

/-- A function with a body has an entry block. -/
theorem MayEnter.entry {p : Program} {config : Config} {o : OpId} {f : FunctionId}
    (h : MayEnter p config o f) : ∃ entry, (p.function f).entryBlock? = some entry := by
  have body := h.body
  unfold Function.isDeclaration at body
  unfold Function.entryBlock?
  cases blocks : (p.function f).blocks with
  | nil => simp only [blocks, List.isEmpty_nil, Bool.true_eq_false] at body
  | cons b bs => exact ⟨b, rfl⟩

theorem mayEnter_of_enterable? {p : Program} {config : Config} {visited : List FunctionId}
    {o : OpId} {f : FunctionId} {entry : BlockId}
    (h : enterable? p config visited (p.op o) = some (f, entry)) :
    MayEnter p config o f ∧ (p.function f).entryBlock? = some entry ∧ f ∉ visited := by
  unfold enterable? at h
  cases target : (p.op o).target? with
  | none => simp only [target, reduceCtorEq] at h
  | some g =>
    simp only [target] at h
    cases first : (p.function g).entryBlock? with
    | none => simp only [first, reduceCtorEq] at h
    | some b =>
      simp only [first] at h
      split at h
      next => simp only [reduceCtorEq] at h
      next allowed =>
        obtain ⟨rfl, rfl⟩ := Prod.mk.inj (Option.some.inj h)
        simp only [Bool.or_eq_true, decide_eq_true_eq, Bool.and_eq_true, Bool.not_eq_true',
          not_or, not_and, Bool.not_eq_true] at allowed
        refine ⟨⟨target, ?_, ?_⟩, first, allowed.1⟩
        · unfold Function.isDeclaration
          unfold Function.entryBlock? at first
          cases blocks : (p.function g).blocks with
          | nil => simp only [blocks, List.head?_nil, reduceCtorEq] at first
          | cons _ _ => rfl
        · cases descend : config.descendIntoLibrary with
          | true => exact .inl rfl
          | false => exact .inr (allowed.2 descend)

/-- A call that may be entered and is not goes to a function entered before. -/
theorem mem_of_enterable? {p : Program} {config : Config} {visited : List FunctionId} {o : OpId}
    {f : FunctionId} (h : enterable? p config visited (p.op o) = none)
    (enters : MayEnter p config o f) :
    f ∈ visited := by
  obtain ⟨entry, first⟩ := enters.entry
  unfold enterable? at h
  simp only [enters.target, first] at h
  split at h
  next refused =>
    simp only [Bool.or_eq_true, decide_eq_true_eq, Bool.and_eq_true, Bool.not_eq_true'] at refused
    rcases refused with known | ⟨closed, library⟩
    · exact known
    · rcases enters.permitted with descend | outside
      · rw [descend] at closed
        exact absurd closed Bool.noConfusion
      · rw [library] at outside
        exact absurd outside Bool.noConfusion
  next => simp only [reduceCtorEq] at h

/-- One move of a search from `s`. -/
inductive Move (p : Program) (config : Config) (q : Query) (s : Search) : Search → Prop where
  /-- The function of the site is walked to its end. -/
  | finish {frame} : s.stack = [frame] → frame.cursor = none → frame.pending = [] →
      Move p config q s { s with stack := [] }
  /-- A function in which nothing was found is walked to its end; its caller goes on. -/
  | resume {frame caller below} : s.stack = frame :: caller :: below →
      frame.cursor = none → frame.pending = [] → frame.found = false →
      Move p config q s { s with stack := caller :: below }
  /-- A function in which something was found is walked to its end; the path of its caller ends. -/
  | cut {frame caller below} : s.stack = frame :: caller :: below →
      frame.cursor = none → frame.pending = [] → frame.found = true →
      Move p config q s { s with stack := { caller with found := true, cursor := none } :: below }
  /-- The end of a block: the successors that are new are pending. -/
  | endBlock {frame below b pending} : s.stack = frame :: below → Takes frame ⟨b, []⟩ pending →
      Move p config q s (s.endBlock p { frame with pending := pending } below b)
  /-- The steps are used up. -/
  | exhaust {frame below b o rest pending} : s.stack = frame :: below →
      Takes frame ⟨b, o :: rest⟩ pending → config.maxSteps < s.steps + 1 →
      Move p config q s
        { s with steps := s.steps + 1, truncated := true,
                 stack := { frame with pending := pending, cursor := some ⟨b, rest⟩ } :: below }
  /-- A member of the group acquires: a report, and the path ends. -/
  | report {frame below b o rest pending second} : s.stack = frame :: below →
      Takes frame ⟨b, o :: rest⟩ pending → s.steps + 1 ≤ config.maxSteps →
      (q.members.find? fun member => member.op = o) = some second →
      Move p config q s
        { s with steps := s.steps + 1,
                 stack := { frame with pending := pending, cursor := none, found := true } :: below,
                 reports := s.reports ++
                   [{ first := q.site, second := second
                      chain := (chainTo q.root s.entries frame.function).1
                      calls := (chainTo q.root s.entries frame.function).2 }] }
  /-- The lock is released: the path ends. -/
  | release {frame below b o rest pending} : s.stack = frame :: below →
      Takes frame ⟨b, o :: rest⟩ pending → s.steps + 1 ≤ config.maxSteps →
      (q.members.find? fun member => member.op = o) = none → o ∈ q.releases →
      Move p config q s
        { s with steps := s.steps + 1,
                 stack := { frame with pending := pending, cursor := none } :: below }
  /-- A call is entered. -/
  | enter {frame below b o rest pending f entry} : s.stack = frame :: below →
      Takes frame ⟨b, o :: rest⟩ pending → s.steps + 1 ≤ config.maxSteps →
      (q.members.find? fun member => member.op = o) = none → o ∉ q.releases →
      enterable? p config s.functions (p.op o) = some (f, entry) →
      Move p config q s
        { s with steps := s.steps + 1,
                 stack := { function := f, pending := [fromStart p entry] } ::
                   { frame with pending := pending, cursor := some ⟨b, rest⟩ } :: below,
                 functions := f :: s.functions,
                 entries := ⟨f, frame.function, o⟩ :: s.entries,
                 blocks := entry :: s.blocks }
  /-- Anything else is passed over. -/
  | pass {frame below b o rest pending} : s.stack = frame :: below →
      Takes frame ⟨b, o :: rest⟩ pending → s.steps + 1 ≤ config.maxSteps →
      (q.members.find? fun member => member.op = o) = none → o ∉ q.releases →
      enterable? p config s.functions (p.op o) = none →
      Move p config q s
        { s with steps := s.steps + 1,
                 stack := { frame with pending := pending, cursor := some ⟨b, rest⟩ } :: below }

variable {p : Program} {config : Config} {q : Query}

/-- A frame that walks on with a position in hand makes one of the moves that start so. -/
theorem Move.of_walk {s : Search} {frame : Frame} {below : List Frame} {position : Position}
    {pending : List Position} (stack : s.stack = frame :: below)
    (takes : Takes frame position pending) :
    Move p config q s (s.walk p config q { frame with pending := pending } below position) := by
  obtain ⟨b, rest⟩ := position
  unfold walk
  cases rest with
  | nil => exact .endBlock stack takes
  | cons o rest =>
    simp only [visit]
    by_cases spent : config.maxSteps < s.steps + 1
    · rw [if_pos spent]
      exact .exhaust stack takes spent
    · rw [if_neg spent]
      have within := Nat.le_of_not_lt spent
      cases found : q.members.find? fun member => member.op = o with
      | some second => exact .report stack takes within found
      | none =>
        by_cases released : o ∈ q.releases
        · simp only [if_pos released]
          exact .release stack takes within found released
        · simp only [if_neg released]
          cases entered : enterable? p config s.functions (p.op o) with
          | none => exact .pass stack takes within found released entered
          | some callee => exact .enter stack takes within found released entered

/-- `advance` makes moves only. -/
theorem Move.of_advance {s t : Search} (h : s.advance p config q = some t) :
    s.truncated = false ∧ Move p config q s t := by
  unfold advance at h
  cases running : s.truncated with
  | true => simp only [running, if_true, reduceCtorEq] at h
  | false =>
    simp only [running, Bool.false_eq_true, if_false] at h
    refine ⟨rfl, ?_⟩
    cases stack : s.stack with
    | nil => simp only [stack, reduceCtorEq] at h
    | cons frame below =>
      simp only [stack] at h
      cases hand : frame.cursor with
      | some position =>
        simp only [hand] at h
        cases h
        exact Move.of_walk stack (.hand hand)
      | none =>
        simp only [hand] at h
        cases rest : frame.pending with
        | cons position pending =>
          simp only [rest] at h
          cases h
          exact Move.of_walk stack (.next hand rest)
        | nil =>
          simp only [rest] at h
          cases h
          cases below with
          | nil => exact .finish stack hand rest
          | cons caller below =>
            unfold leave
            cases found : frame.found with
            | true => exact .cut stack hand rest found
            | false => exact .resume stack hand rest found

/-- A search is over when it used up its steps or walked everything. -/
theorem over_of_advance {s : Search} (h : s.advance p config q = none) :
    s.truncated = true ∨ s.stack = [] := by
  unfold advance at h
  cases running : s.truncated with
  | true => exact .inl rfl
  | false =>
    simp only [running, Bool.false_eq_true, if_false] at h
    cases stack : s.stack with
    | nil => exact .inr rfl
    | cons frame below =>
      simp only [stack] at h
      cases hand : frame.cursor with
      | some position => simp only [hand, reduceCtorEq] at h
      | none => cases rest : frame.pending <;> simp only [hand, rest, reduceCtorEq] at h

theorem advance_eq_none {s : Search} (done : s.truncated = true ∨ s.stack = []) :
    s.advance p config q = none := by
  unfold advance
  rcases done with spent | walked
  · rw [if_pos spent]
  · rw [walked, ite_self]

theorem advance_of_takes {s : Search} {frame : Frame} {below : List Frame} {position : Position}
    {pending : List Position} (running : s.truncated = false) (stack : s.stack = frame :: below)
    (takes : Takes frame position pending) :
    s.advance p config q =
      some (s.walk p config q { frame with pending := pending } below position) := by
  cases takes with
  | hand hand =>
    simp only [advance, running, stack, hand, Bool.false_eq_true, if_false]
    rw [← hand]
  | next hand rest => simp only [advance, running, stack, hand, rest, Bool.false_eq_true, if_false]

/-- Every move is made by `advance`. -/
theorem Move.advance {s t : Search} (running : s.truncated = false) (move : Move p config q s t) :
    s.advance p config q = some t := by
  cases move with
  | finish stack hand rest =>
    simp only [Search.advance, running, stack, hand, rest, Bool.false_eq_true, if_false, leave]
  | resume stack hand rest found =>
    simp only [Search.advance, running, stack, hand, rest, Bool.false_eq_true, if_false,
      leave, found]
  | cut stack hand rest found =>
    simp only [Search.advance, running, stack, hand, rest, Bool.false_eq_true, if_false, leave,
      found, if_true]
  | endBlock stack takes =>
    rw [advance_of_takes running stack takes]
    rfl
  | exhaust stack takes spent =>
    rw [advance_of_takes running stack takes]
    simp only [walk, visit, if_pos spent]
  | report stack takes within found =>
    rw [advance_of_takes running stack takes]
    simp only [walk, visit, if_neg (Nat.not_lt_of_le within), found]
  | release stack takes within unfound released =>
    rw [advance_of_takes running stack takes]
    simp only [walk, visit, if_neg (Nat.not_lt_of_le within), unfound, if_pos released]
  | enter stack takes within unfound kept enters =>
    rw [advance_of_takes running stack takes]
    simp only [walk, visit, if_neg (Nat.not_lt_of_le within), unfound, if_neg kept, enters]
  | pass stack takes within unfound kept stays =>
    rw [advance_of_takes running stack takes]
    simp only [walk, visit, if_neg (Nat.not_lt_of_le within), unfound, if_neg kept, stays]

/-! ## Runs -/

/-- What every move keeps, a run keeps. -/
theorem run_invariant (Inv : Search → Prop)
    (step : ∀ {s t}, Inv s → s.truncated = false → Move p config q s t → Inv t)
    (fuel : Nat) {s : Search} (start : Inv s) : Inv (run p config q fuel s) := by
  induction fuel generalizing s with
  | zero => exact start
  | succ fuel ih =>
    unfold run
    cases next : s.advance p config q with
    | none => exact start
    | some t =>
      obtain ⟨running, move⟩ := Move.of_advance next
      exact ih (step start running move)

/-- A run whose moves lower a measure is over within that many moves. -/
theorem run_stops (Inv : Search → Prop) (measure : Search → Nat)
    (step : ∀ {s t}, Inv s → s.truncated = false → Move p config q s t → Inv t)
    (lowers : ∀ {s t}, Inv s → Move p config q s t → measure t < measure s)
    (fuel : Nat) {s : Search} (start : Inv s) (enough : measure s ≤ fuel) :
    (run p config q fuel s).advance p config q = none := by
  induction fuel generalizing s with
  | zero =>
    unfold run
    cases next : s.advance p config q with
    | none => rfl
    | some t =>
      have lower := lowers start (Move.of_advance next).2
      exact absurd (Nat.lt_of_lt_of_le lower enough) (Nat.not_lt_zero _)
  | succ fuel ih =>
    unfold run
    cases next : s.advance p config q with
    | none => exact next
    | some t =>
      obtain ⟨running, move⟩ := Move.of_advance next
      exact ih (step start running move)
        (Nat.le_of_lt_succ (Nat.lt_of_lt_of_le (lowers start move) enough))

theorem run_of_advance_none {s : Search} (done : s.advance p config q = none) (fuel : Nat) :
    run p config q fuel s = s := by
  cases fuel with
  | zero => rfl
  | succ fuel => rw [run, done]

end Relock.Search
