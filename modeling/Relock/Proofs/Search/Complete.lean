import Relock.Proofs.Search.Reach
import Relock.Proofs.Search.Termination

/-!
# Nothing in reach is missed

A query cuts paths short in three ways: at a release, at an acquisition that it reports, and at a
call in which it found something. It also walks a block and enters a function only once, on
whichever path comes first. `Trail` says what became of the operations from a position on: each was
passed, with the functions it enters taken up, until the path was cut for one of these reasons, or
is in hand, or ended with all successors taken up. The invariant `Covered` says that the walk of
every block taken up, and of what follows the site, is still to come or has left a trail.

When a search is over nothing is in hand, so that trails lead on wherever `Connects` does, except
past a call in which something was found.
-/

namespace Relock
namespace Search

open Relation (ReflTransGen)

variable {p : Program} {config : Config} {q : Query}

/-! ## Trails -/

/-- A frame has a position in hand. -/
def InHand (s : Search) (position : Position) : Prop :=
  ∃ frame ∈ s.stack, frame.cursor = some position

/-- A position is pending in a frame. -/
def Waits (s : Search) (position : Position) : Prop := ∃ frame ∈ s.stack, position ∈ frame.pending

/-- An operation that ends no path, with the functions it enters taken up. -/
structure Passed (p : Program) (config : Config) (q : Query) (s : Search) (o : OpId) : Prop where
  running : ¬ Halts q.members q.releases o
  taken : ∀ g, Enters p config q.root o g → g ∈ s.functions

/-- A path may end at a call in which something was found. -/
structure Cut (p : Program) (config : Config) (q : Query) (s : Search) (o : OpId) : Prop where
  found : s.reports ≠ []
  inside : ∃ g, Enters p config q.root o g ∧ Detects p config q.root q.members g

/-- What became of the rest of a block. -/
inductive Trail (p : Program) (config : Config) (q : Query) (s : Search) (b : BlockId) :
    List OpId → Prop where
  | ended : (∀ succ ∈ (p.block b).successors, succ ∈ s.blocks) → Trail p config q s b []
  | reported {o rest} : Acquires q.members o → (∃ r ∈ s.reports, r.second.op = o) →
      Trail p config q s b (o :: rest)
  | released {o rest} : ¬ Acquires q.members o → o ∈ q.releases → Trail p config q s b (o :: rest)
  | inHand {o rest} : Passed p config q s o → InHand s ⟨b, rest⟩ → Trail p config q s b (o :: rest)
  | walked {o rest} : Passed p config q s o → Trail p config q s b rest →
      Trail p config q s b (o :: rest)
  | cut {o rest} : Passed p config q s o → Cut p config q s o → Trail p config q s b (o :: rest)

/-- A later state knows all that an earlier one knew. -/
structure Later (s t : Search) : Prop where
  blocks : s.blocks ⊆ t.blocks
  functions : s.functions ⊆ t.functions
  reports : s.reports ⊆ t.reports

theorem Later.of_eq {s t : Search} (blocks : t.blocks = s.blocks)
    (functions : t.functions = s.functions) (reports : t.reports = s.reports) : Later s t :=
  ⟨blocks ▸ List.Subset.refl _, functions ▸ List.Subset.refl _, reports ▸ List.Subset.refl _⟩

theorem Passed.later {s t : Search} {o : OpId} (passed : Passed p config q s o)
    (later : Later s t) :
    Passed p config q t o :=
  ⟨passed.running, fun g enters => later.functions (passed.taken g enters)⟩

theorem Cut.later {s t : Search} {o : OpId} (cut : Cut p config q s o) (later : Later s t) :
    Cut p config q t o := by
  refine ⟨fun none => cut.found ?_, cut.inside⟩
  exact List.eq_nil_of_subset_nil (none ▸ later.reports)

/-- A trail remains if each position that was in hand is in hand, or has left a trail, or was cut
off. -/
theorem Trail.later {s t : Search} {b : BlockId} {rest : List OpId}
    (trail : Trail p config q s b rest) (inside : rest <:+ (p.block b).ops) (later : Later s t)
    (hands : ∀ {o rest}, o :: rest <:+ (p.block b).ops → InHand s ⟨b, rest⟩ →
      InHand t ⟨b, rest⟩ ∨ Trail p config q t b rest ∨ Cut p config q t o) :
    Trail p config q t b rest := by
  induction trail with
  | ended all => exact .ended fun succ hs => later.blocks (all succ hs)
  | reported acquires reported =>
    obtain ⟨r, hr, same⟩ := reported
    exact .reported acquires ⟨r, later.reports hr, same⟩
  | released kept released => exact .released kept released
  | inHand passed hand =>
    rcases hands inside hand with still | trail | cut
    · exact .inHand (passed.later later) still
    · exact .walked (passed.later later) trail
    · exact .cut (passed.later later) cut
  | walked passed _ ih =>
    exact .walked (passed.later later) (ih ((List.suffix_cons _ _).trans inside))
  | cut passed cut => exact .cut (passed.later later) (cut.later later)

/-! ## The invariant -/

/-- The frame above another was entered by the call right before the position that the lower one has
in hand. -/
def CalledFrom (p : Program) (config : Config) (q : Query) (caller callee : Frame) : Prop :=
  ∃ b o rest, caller.cursor = some ⟨b, rest⟩ ∧ o :: rest <:+ (p.block b).ops ∧
    o ∈ p.opsOf caller.function ∧ Enters p config q.root o callee.function

/-- Each frame of a stack was called from the one below it. -/
def Linked (p : Program) (config : Config) (q : Query) : List Frame → Prop
  | callee :: caller :: below => CalledFrom p config q caller callee ∧
      Linked p config q (caller :: below)
  | _ => True

/-- What follows the site, and the blocks taken up. -/
def Begins (p : Program) (start : Position) (s : Search) (position : Position) : Prop :=
  position = start ∨ ∃ b ∈ s.blocks, position = fromStart p b

/-- The walk of everything taken up is to come or has left a trail. -/
structure Covered (p : Program) (config : Config) (q : Query) (start : Position)
    (s : Search) : Prop where
  begins : ∀ {position}, Begins p start s position →
    Waits s position ∨ Trail p config q s position.block position.rest
  entries : ∀ g ∈ s.functions, g ≠ q.root → ∀ entry, (p.function g).entryBlock? = some entry →
    entry ∈ s.blocks
  found : ∀ frame ∈ s.stack, frame.found = true →
    s.reports ≠ [] ∧ Detects p config q.root q.members frame.function
  linked : Linked p config q s.stack

theorem Linked.below {frame : Frame} {below : List Frame}
    (linked : Linked p config q (frame :: below)) :
    Linked p config q below := by
  cases below with
  | nil => exact trivial
  | cons caller below => exact linked.2

/-- What the top frame holds does not matter for its links. -/
theorem Linked.top {frame next : Frame} {below : List Frame}
    (linked : Linked p config q (frame :: below)) (same : next.function = frame.function) :
    Linked p config q (next :: below) := by
  cases below with
  | nil => exact trivial
  | cons caller below =>
    obtain ⟨⟨b, o, rest, hand, inside, mem, enters⟩, linked⟩ := linked
    exact ⟨⟨b, o, rest, hand, inside, mem, same ▸ enters⟩, linked⟩

/-! ## What a move keeps -/

variable {start : Position} {s t : Search}

/-- The walks that were begun go on, if what was in hand and what was pending is accounted for. -/
theorem Covered.begins_later (covered : Covered p config q start s)
    (inside : start.rest <:+ (p.block start.block).ops) (later : Later s t)
    (hands : ∀ {b o rest}, o :: rest <:+ (p.block b).ops → InHand s ⟨b, rest⟩ →
      InHand t ⟨b, rest⟩ ∨ Trail p config q t b rest ∨ Cut p config q t o)
    (waits : ∀ {position}, Waits s position → Waits t position ∨
      Trail p config q t position.block position.rest)
    (new : ∀ b ∈ t.blocks, b ∈ s.blocks ∨ Waits t (fromStart p b)) {position : Position}
    (begins : Begins p start t position) :
    Waits t position ∨ Trail p config q t position.block position.rest := by
  have old : Begins p start s position → position.rest <:+ (p.block position.block).ops →
      Waits t position ∨ Trail p config q t position.block position.rest := by
    intro begins within
    rcases covered.begins begins with waiting | trail
    · exact waits waiting
    · exact .inr (trail.later within later hands)
  rcases begins with rfl | ⟨b, hb, rfl⟩
  · exact old (.inl rfl) inside
  · rcases new b hb with before | waiting
    · exact old (.inr ⟨b, before, rfl⟩) (List.suffix_refl _)
    · exact .inl waiting

/-- A move that takes up a position and leaves a trail from it. -/
theorem Covered.begins_takes (covered : Covered p config q start s)
    (inside : start.rest <:+ (p.block start.block).ops) (later : Later s t)
    {frame next : Frame} {below : List Frame} {b : BlockId} {rest : List OpId}
    {pending : List Position} (stack : s.stack = frame :: below)
    (takes : Takes frame ⟨b, rest⟩ pending) (kept : below ⊆ t.stack) (on : next ∈ t.stack)
    (left : pending ⊆ next.pending) (trail : Trail p config q t b rest)
    (new : ∀ b ∈ t.blocks, b ∈ s.blocks ∨ Waits t (fromStart p b)) {position : Position}
    (begins : Begins p start t position) :
    Waits t position ∨ Trail p config q t position.block position.rest := by
  refine covered.begins_later inside later ?_ ?_ new begins
  · rintro b' o rest' _ ⟨holder, mem, hand⟩
    rw [stack] at mem
    rcases List.mem_cons.mp mem with rfl | lower
    · cases takes with
      | hand taken =>
        obtain ⟨rfl, rfl⟩ := Position.mk.inj (Option.some.inj (hand.symm.trans taken))
        exact .inr (.inl trail)
      | next idle _ => rw [idle] at hand; cases hand
    · exact .inl ⟨holder, kept lower, hand⟩
  · rintro other ⟨holder, mem, waiting⟩
    rw [stack] at mem
    rcases List.mem_cons.mp mem with rfl | lower
    · cases takes with
      | hand _ => exact .inl ⟨next, on, left waiting⟩
      | next _ row =>
        rw [row] at waiting
        rcases List.mem_cons.mp waiting with rfl | still
        · exact .inr trail
        · exact .inl ⟨next, on, left still⟩
    · exact .inl ⟨holder, kept lower, waiting⟩

/-- A move that drops the top frame, which has nothing left. What a lower frame had in hand may be
cut off. -/
theorem Covered.leave (covered : Covered p config q start s)
    (inside : start.rest <:+ (p.block start.block).ops) (later : Later s t)
    (blocks : t.blocks = s.blocks)
    (functions : t.functions = s.functions) {frame : Frame} {below : List Frame}
    (stack : s.stack = frame :: below)
    (idle : frame.cursor = none) (row : frame.pending = [])
    (hands : ∀ {b o rest}, ∀ holder ∈ below, holder.cursor = some ⟨b, rest⟩ →
      o :: rest <:+ (p.block b).ops →
      InHand t ⟨b, rest⟩ ∨ Cut p config q t o)
    (waits : ∀ {position}, ∀ holder ∈ below, position ∈ holder.pending → Waits t position)
    (found : ∀ frame ∈ t.stack, frame.found = true →
      t.reports ≠ [] ∧ Detects p config q.root q.members frame.function)
    (linked : Linked p config q t.stack) : Covered p config q start t := by
  refine ⟨fun begins => covered.begins_later inside later ?_ ?_ (fun b hb =>
    .inl (blocks ▸ hb)) begins, functions ▸ blocks ▸ covered.entries, found, linked⟩
  · rintro b o rest within ⟨holder, mem, hand⟩
    rw [stack] at mem
    rcases List.mem_cons.mp mem with rfl | lower
    · rw [idle] at hand; cases hand
    · rcases hands holder lower hand within with still | cut
      · exact .inl still
      · exact .inr (.inr cut)
  · rintro other ⟨holder, mem, waiting⟩
    rw [stack] at mem
    rcases List.mem_cons.mp mem with rfl | lower
    · rw [row] at waiting
      exact absurd waiting List.not_mem_nil
    · exact .inl (waits holder lower waiting)

/-- What was found stays found. -/
theorem Covered.found_later (covered : Covered p config q start s) (later : Later s t)
    {frame : Frame} (mem : frame ∈ s.stack) (found : frame.found = true) :
    t.reports ≠ [] ∧ Detects p config q.root q.members frame.function := by
  obtain ⟨some, detects⟩ := covered.found frame mem found
  exact ⟨fun none => some (List.eq_nil_of_subset_nil (none ▸ later.reports)), detects⟩

/-- Two ends of a block with the same operations after their first one are the same. -/
theorem head_eq_of_suffix {ops rest : List OpId} {o o' : OpId} (h : o :: rest <:+ ops)
    (h' : o' :: rest <:+ ops) :
    o = o' := by
  have shorter := List.suffix_of_suffix_length_le h h' (Nat.le_refl _)
  exact (List.cons.inj (shorter.eq_of_length rfl)).1

/-- Leaving a function in which something was found cuts its caller's path off. -/
theorem Covered.cut (covered : Covered p config q start s)
    (inside : start.rest <:+ (p.block start.block).ops) {frame caller : Frame} {below : List Frame}
    (stack : s.stack = frame :: caller :: below) (idle : frame.cursor = none)
    (row : frame.pending = []) (found : frame.found = true) :
    Covered p config q start { s with stack := { caller with found := true, cursor := none } ::
      below } := by
  have linked := covered.linked
  rw [stack] at linked
  obtain ⟨⟨b, o, rest, hand, within, mem, enters⟩, linked⟩ := linked
  obtain ⟨some, detects⟩ := covered.found frame (stack ▸ List.mem_cons_self) found
  refine covered.leave inside (.of_eq rfl rfl rfl) rfl rfl stack idle row ?_ ?_ ?_ (linked.top rfl)
  · intro b' o' rest' holder mem hand' within'
    rcases List.mem_cons.mp mem with rfl | lower
    · obtain ⟨rfl, rfl⟩ := Position.mk.inj (Option.some.inj (hand.symm.trans hand'))
      obtain rfl := head_eq_of_suffix within within'
      exact .inr ⟨some, frame.function, enters, detects⟩
    · exact .inl ⟨holder, List.mem_cons_of_mem _ lower, hand'⟩
  · intro position holder mem waiting
    rcases List.mem_cons.mp mem with rfl | lower
    · exact ⟨_, List.mem_cons_self, waiting⟩
    · exact ⟨holder, List.mem_cons_of_mem _ lower, waiting⟩
  · intro other hother foundOther
    rcases List.mem_cons.mp hother with rfl | lower
    · exact ⟨some, detects.of_call mem enters⟩
    · have held : other ∈ s.stack := stack ▸ List.mem_cons_of_mem _ (List.mem_cons_of_mem _ lower)
      exact covered.found other held foundOther

/-- Entering a function takes its entry block up. -/
theorem Covered.enter (covered : Covered p config q start s)
    (inside : start.rest <:+ (p.block start.block).ops) {frame : Frame} {below : List Frame}
    {b : BlockId} {o : OpId} {rest : List OpId} {pending : List Position}
    {f : FunctionId} {entry : BlockId} (stack : s.stack = frame :: below)
    (takes : Takes frame ⟨b, o :: rest⟩ pending) (within : p.Inside frame.function ⟨b, o :: rest⟩)
    (running : ¬ Halts q.members q.releases o) (enters : Enters p config q.root o f)
    (first : (p.function f).entryBlock? = some entry) (steps : Nat) (entries : List Entry) :
    Covered p config q start
      { s with steps := steps,
               stack := { function := f, pending := [fromStart p entry] } ::
                 { frame with pending := pending, cursor := some ⟨b, rest⟩ } :: below,
               functions := f :: s.functions, entries := entries, blocks :=
                 entry :: s.blocks } := by
  have linked := covered.linked
  rw [stack] at linked
  have later : Later s { s with
      steps := steps, stack := { function := f, pending := [fromStart p entry] } ::
        { frame with pending := pending, cursor := some ⟨b, rest⟩ } :: below,
      functions := f :: s.functions, entries := entries, blocks := entry :: s.blocks } :=
    ⟨List.subset_cons_self _ _, List.subset_cons_self _ _, List.Subset.refl _⟩
  refine ⟨covered.begins_takes inside later stack takes ?_
    (List.mem_cons_of_mem _ List.mem_cons_self)
    (List.Subset.refl _) ?_ ?_, ?_, ?_, ?_, linked.top rfl⟩
  · exact fun x hx => List.mem_cons_of_mem _ (List.mem_cons_of_mem _ hx)
  · refine .inHand ⟨running, fun g other => ?_⟩ ⟨_, List.mem_cons_of_mem _ List.mem_cons_self, rfl⟩
    rw [other.unique enters]
    exact List.mem_cons_self
  · intro b' hb
    rcases List.mem_cons.mp hb with rfl | old
    · exact .inr ⟨_, List.mem_cons_self, List.mem_cons_self⟩
    · exact .inl old
  · intro g hg other entry' first'
    rcases List.mem_cons.mp hg with rfl | old
    · rw [Option.some.inj (first'.symm.trans first)]
      exact List.mem_cons_self
    · exact List.mem_cons_of_mem _ (covered.entries g old other entry' first')
  · intro other hother found
    rcases List.mem_cons.mp hother with rfl | lower
    · cases found
    · rcases List.mem_cons.mp lower with rfl | lower
      · exact covered.found frame (stack ▸ List.mem_cons_self) found
      · exact covered.found other (stack ▸ List.mem_cons_of_mem _ lower) found
  · exact ⟨b, o, rest, rfl, within.2, within.mem_opsOf, enters⟩

/-- A move that stays in the top frame. -/
theorem Covered.stay (covered : Covered p config q start s)
    (inside : start.rest <:+ (p.block start.block).ops) (later : Later s t) {frame next : Frame}
    {below : List Frame} {b : BlockId} {rest : List OpId} {pending : List Position}
    (stack : s.stack = frame :: below) (takes : Takes frame ⟨b, rest⟩ pending)
    (top : t.stack = next :: below) (same : next.function = frame.function)
    (functions : t.functions = s.functions) (left : pending ⊆ next.pending)
    (trail : Trail p config q t b rest)
    (new : ∀ b ∈ t.blocks, b ∈ s.blocks ∨ Waits t (fromStart p b))
    (found : next.found = true → t.reports ≠ [] ∧
      Detects p config q.root q.members frame.function) :
    Covered p config q start t := by
  have linked := covered.linked
  rw [stack] at linked
  refine ⟨covered.begins_takes inside later stack takes (top ▸ List.subset_cons_self _ _)
    (top ▸ List.mem_cons_self) left trail new, ?_, ?_, top ▸ linked.top same⟩
  · intro g hg other entry first
    exact later.blocks (covered.entries g (functions ▸ hg) other entry first)
  · rw [top]
    intro other hother foundOther
    rcases List.mem_cons.mp hother with rfl | lower
    · rw [same]
      exact found foundOther
    · exact covered.found_later later (stack ▸ List.mem_cons_of_mem _ lower) foundOther

/-- Every move of a running search keeps it covered. -/
theorem Covered.step (shape : p.Shape) (inside : start.rest <:+ (p.block start.block).ops)
    (sound : Sound p config q s) (running : s.truncated = false)
    (covered : Covered p config q start s) (move : Move p config q s t) (on : t.truncated = false) :
    Covered p config q start t := by
  -- the position taken up lies in the function of the top frame
  have within {frame : Frame} {below : List Frame} {position : Position} {pending : List Position}
      (stack : s.stack = frame :: below) (takes : Takes frame position pending) :
      p.Inside frame.function position := by
    obtain ⟨_, opens, clear⟩ :=
      (sound.frames running frame (stack ▸ List.mem_cons_self)).reached takes.holds
    exact clear.inside shape (opens.inside shape)
  cases move with
  | finish stack idle row =>
    refine covered.leave inside (.of_eq rfl rfl rfl) rfl rfl stack idle row ?_ ?_ ?_ trivial
    · exact fun holder mem => absurd mem List.not_mem_nil
    · exact fun holder mem => absurd mem List.not_mem_nil
    · exact fun frame mem => absurd mem List.not_mem_nil
  | resume stack idle row _ =>
    have linked := covered.linked
    rw [stack] at linked
    refine covered.leave inside (.of_eq rfl rfl rfl) rfl rfl stack idle row ?_ ?_ ?_ linked.below
    · exact fun holder mem hand _ => .inl ⟨holder, mem, hand⟩
    · exact fun holder mem waiting => ⟨holder, mem, waiting⟩
    · exact fun frame mem => covered.found frame (stack ▸ List.mem_cons_of_mem _ mem)
  | cut stack idle row found => exact covered.cut inside stack idle row found
  | @endBlock frame below b pending stack takes =>
    have later : Later s (s.endBlock p { frame with pending := pending } below b) :=
      ⟨List.subset_append_right _ _, List.Subset.refl _, List.Subset.refl _⟩
    refine covered.stay inside later stack takes rfl rfl rfl (List.subset_append_right _ _) ?_ ?_ ?_
    · refine .ended fun succ hs => ?_
      by_cases known : succ ∈ s.blocks
      · exact List.mem_append_right _ known
      · exact List.mem_append_left _ (List.mem_filter.mpr ⟨hs, decide_eq_true known⟩)
    · intro succ hs
      rcases List.mem_append.mp hs with fresh | old
      · exact .inr ⟨_, List.mem_cons_self, List.mem_append_left _ (List.mem_map_of_mem fresh)⟩
      · exact .inl old
    · exact fun found => covered.found frame (stack ▸ List.mem_cons_self) found
  | exhaust => cases on
  | @report frame below b o rest pending second stack takes _ found =>
    obtain ⟨member, rfl⟩ := acquires_of_find? found
    have acquires : Acquires q.members second.op := ⟨second, member, rfl⟩
    refine covered.stay inside ⟨List.Subset.refl _, List.Subset.refl _,
      List.subset_append_left _ _⟩ stack takes
      rfl rfl rfl (List.Subset.refl _) ?_ (fun b hb => .inl hb) ?_
    · exact .reported acquires ⟨_, List.mem_append_right _ (List.mem_singleton.mpr rfl), rfl⟩
    · exact fun _ => ⟨List.append_ne_nil_of_right_ne_nil _ (List.cons_ne_nil _ _),
        detects_of_acquires (within stack takes).mem_opsOf acquires⟩
  | @release frame below b o rest pending stack takes _ unfound released =>
    refine covered.stay inside (.of_eq rfl rfl rfl) stack takes rfl rfl rfl (List.Subset.refl _) ?_
      (fun b hb => .inl hb) ?_
    · exact .released (not_acquires_of_find? unfound) released
    · exact fun found => covered.found frame (stack ▸ List.mem_cons_self) found
  | @enter frame below b o rest pending f entry stack takes _ unfound kept enterable =>
    obtain ⟨enters, first, fresh⟩ := mayEnter_of_enterable? enterable
    have other : f ≠ q.root :=
      fun same => fresh (by rw [sound.functions, same]; exact root_mem_known _ _)
    exact covered.enter inside stack takes (within stack takes) (not_halts unfound kept) ⟨enters,
      other⟩ first _ _
  | @pass frame below b o rest pending stack takes _ unfound kept enterable =>
    refine covered.stay inside (.of_eq rfl rfl rfl) stack takes rfl rfl rfl (List.Subset.refl _) ?_
      (fun b hb => .inl hb) ?_
    · refine .inHand ⟨not_halts unfound kept, fun g enters => ?_⟩ ⟨_, List.mem_cons_self, rfl⟩
      exact mem_of_enterable? enterable enters.toMayEnter
    · exact fun found => covered.found frame (stack ▸ List.mem_cons_self) found

/-- Before its first move a search has everything pending. -/
theorem covered_startSearch (site : LockSite) (b : BlockId) :
    Covered p config q ⟨b, ((p.block b).ops.dropWhile (· ≠ site.op)).drop 1⟩
    (p.startSearch site q.root b) where
  begins begins := by
    rcases begins with rfl | ⟨_, mem, _⟩
    · exact .inl ⟨_, List.mem_cons_self, List.mem_cons_self⟩
    · exact absurd mem List.not_mem_nil
  entries g hg other := absurd (List.mem_singleton.mp hg) other
  found frame hf found := by
    rw [List.mem_singleton.mp hf] at found
    cases found
  linked := trivial

/-! ## The end of a search -/

/-- When a search is over, trails go on along every step, unless it passes a call that was cut
off. -/
theorem Covered.connects (covered : Covered p config q start s) (done : s.stack = [])
    {allowed : OpId → Prop} (uncut : ∀ o, allowed o → ¬ Cut p config q s o) {here there : Position}
    (trail : Trail p config q s here.block here.rest)
    (step : Connects p config q.root q.members q.releases allowed here there) :
    Trail p config q s there.block there.rest := by
  have walked {b : BlockId} (mem : b ∈ s.blocks) : Trail p config q s b (p.block b).ops := by
    rcases covered.begins (.inr ⟨b, mem, rfl⟩) with ⟨frame, held, _⟩ | trail
    · rw [done] at held
      exact absurd held List.not_mem_nil
    · exact trail
  cases step with
  | @pass b o rest running allowed =>
    cases trail with
    | reported acquires => exact absurd (.inl acquires) running
    | released _ released => exact absurd (.inr released) running
    | inHand _ hand =>
      obtain ⟨frame, held, _⟩ := hand
      rw [done] at held
      exact absurd held List.not_mem_nil
    | walked _ trail => exact trail
    | cut _ cut => exact absurd cut (uncut o allowed)
  | jump mem =>
    cases trail with
    | ended all => exact walked (all _ mem)
  | @enter b o rest g entry running enters first =>
    have taken : g ∈ s.functions := by
      cases trail with
      | reported acquires => exact absurd (.inl acquires) running
      | released _ released => exact absurd (.inr released) running
      | inHand passed _ => exact passed.taken g enters
      | walked passed _ => exact passed.taken g enters
      | cut passed _ => exact passed.taken g enters
    exact walked (covered.entries g taken enters.other entry first)

/-- When a search is over, every acquisition that it can come to is reported. -/
theorem Covered.reported (covered : Covered p config q start s) (done : s.stack = [])
    {allowed : OpId → Prop} (uncut : ∀ o, allowed o → ¬ Cut p config q s o) {b : BlockId} {o : OpId}
    {rest : List OpId}
    (path : ReflTransGen (Connects p config q.root q.members q.releases allowed) start ⟨b,
      o :: rest⟩)
    (acquires : Acquires q.members o) : ∃ r ∈ s.reports, r.second.op = o := by
  have first : Trail p config q s start.block start.rest := by
    rcases covered.begins (.inl rfl) with ⟨frame, held, _⟩ | trail
    · rw [done] at held
      exact absurd held List.not_mem_nil
    · exact trail
  have trails {there : Position}
      (path : ReflTransGen (Connects p config q.root q.members q.releases allowed) start there) :
      Trail p config q s there.block there.rest := by
    induction path with
    | refl => exact first
    | tail _ step ih => exact covered.connects done uncut ih step
  cases trails path with
  | reported _ reported => exact reported
  | released kept _ => exact absurd acquires kept
  | inHand passed _ => exact absurd (.inl acquires) passed.running
  | walked passed _ => exact absurd (.inl acquires) passed.running
  | cut passed _ => exact absurd (.inl acquires) passed.running

/-- A search that is not cut short reports every acquisition that it can come to, as long as it
passes no call in which it found something. -/
theorem run_reported (shape : p.Shape) (home : p.functionOf? q.site.op = some q.root) {b : BlockId}
    {before rest : List OpId} (ops : (p.block b).ops = before ++ q.site.op :: rest) {s : Search}
    (ran : run p config q p.moveBound (p.startSearch q.site q.root b) = s)
    (whole : s.truncated = false) {allowed : OpId → Prop}
    (uncut : ∀ o, allowed o → ¬ Cut p config q s o) {b' : BlockId} {o : OpId} {rest' : List OpId}
    (path : ReflTransGen (Connects p config q.root q.members q.releases allowed) ⟨b, rest⟩ ⟨b',
      o :: rest'⟩)
    (acquires : Acquires q.members o) : ∃ r ∈ s.reports, r.second.op = o := by
  have mem : q.site.op ∈ (p.block b).ops := by
    rw [ops]
    exact List.mem_append_right _ List.mem_cons_self
  have after := Program.rest_of_split (shape.ops_nodup b) ops
  have inside : rest <:+ (p.block b).ops := ⟨before ++ [q.site.op], by rw [ops]; simp⟩
  have start : Covered p config q ⟨b, rest⟩ (p.startSearch q.site q.root b) :=
    after ▸ covered_startSearch q.site b
  have kept : Sound p config q s ∧ (s.truncated = false → Covered p config q ⟨b, rest⟩ s) := by
    rw [← ran]
    refine run_invariant (fun s => Sound p config q s ∧
      (s.truncated = false → Covered p config q ⟨b, rest⟩ s))
      ?_ p.moveBound ⟨sound_startSearch home mem, fun _ => start⟩
    rintro s t ⟨sound, covered⟩ running move
    exact ⟨sound.step shape home running move,
      (covered running).step shape inside sound running move⟩
  have done : s.stack = [] := by
    rcases run_over shape home mem ran with short | done
    · rw [whole] at short
      cases short
    · exact done
  exact (kept.2 whole).reported done uncut path acquires

end Search

open Relation (ReflTransGen)

/-- A query that is not cut short reports every acquisition that it can come to. Calls may be passed
unless the query tells something and there is something to be found in them. -/
theorem reported_of_query {p : Program} (shape : p.Shape) {config : Config} {site : LockSite}
    {b : BlockId} (attached : (p.op site.op).block = some b) {group : List LockSite}
    {releases : List OpId} {result : QueryResult}
    (answered : p.query config site group releases = .ok result) (whole : result.truncated = false)
    {passable : OpId → Prop}
    (free : ∀ o, passable o → result.reports = [] ∨ Barren p config (p.block b).function group o)
    {before rest : List OpId} (ops : (p.block b).ops = before ++ site.op :: rest) {b' : BlockId}
    {o : OpId} {rest' : List OpId}
    (path : ReflTransGen (Connects p config (p.block b).function group releases passable) ⟨b,
      rest⟩ ⟨b', o :: rest'⟩)
    (acquires : Acquires group o) : ∃ r ∈ result.reports, r.second.op = o := by
  have filled : group ≠ [] := by
    rintro rfl
    obtain ⟨member, mem, _⟩ := acquires
    exact absurd mem List.not_mem_nil
  have home := Program.functionOf?_of_block attached
  rw [Program.query_of_block attached filled] at answered
  cases answered
  have paths : ReflTransGen
      (Connects p config (p.block b).function (Program.queryMembers group) releases passable)
      ⟨b, rest⟩ ⟨b', o :: rest'⟩ :=
    ReflTransGen.mono (fun _ _ step => step.queryMembers) _ _ path
  refine Search.run_reported (q := p.queryAt site group releases b) shape home ops rfl
    whole ?_ paths
    (acquires_queryMembers.mpr acquires)
  rintro o allowed ⟨found, g, enters, detects⟩
  rcases free o allowed with none | barren
  · exact found none
  · exact barren g enters (detects_queryMembers.mp detects)

/-- A query that is not cut short reports every acquisition of the group that is in reach: over
operations that end no path and in which nothing is to be found, and into the functions that calls
enter. -/
theorem query_complete {read : Sexp.Reader} {file text : String} {p : Program}
    (loaded : Program.loadWith read file text = .ok p) (config : Config) {site : LockSite}
    {b : BlockId} (attached : (p.op site.op).block = some b) (group : List LockSite)
    (releases : List OpId) :
    let root := (p.block b).function
    ∃ result, p.query config site group releases = .ok result ∧
      (result.truncated = false → ∀ {before rest}, (p.block b).ops = before ++ site.op :: rest →
        ∀ {b' o rest'}, ReflTransGen
          (Connects p config root group releases (Barren p config root group))
            ⟨b, rest⟩ ⟨b', o :: rest'⟩ →
          Acquires group o → ∃ r ∈ result.reports, r.second.op = o) := by
  intro root
  have shape := Program.shape_of_load loaded
  obtain ⟨result, answered⟩ := Program.query_answers config attached group releases
  refine ⟨result, answered, fun whole before rest ops b' o rest' path acquires => ?_⟩
  exact reported_of_query shape attached answered whole (fun o barren =>
    .inr barren) ops path acquires

set_option maxRecDepth 4000 in
/-- The blocks and calls of `nestedText` on the way to the second acquisition. -/
theorem nestedText_flow : ∃ p, Program.load "nested" nestedText = .ok p ∧
    decide ((p.block 5).function = 2 ∧ (p.block 5).ops = [6, 8] ∧ (p.block 5).successors = [9] ∧
      (p.op 8).target? = none ∧ (p.block 9).ops = [10, 11] ∧
      (p.op 10).target? = some 3 ∧ (p.function 3).blocks = [18] ∧ (p.block 18).ops = [19, 20] ∧
      (p.op 19).target? = some 4 ∧ (p.function 4).blocks = [21] ∧ (p.block 21).ops = [22, 24, 25] ∧
      nestedConfig.patterns.isLibrary (p.function 3).name = false ∧
      nestedConfig.patterns.isLibrary (p.function 4).name = false) = true :=
  Program.exists_of_load rfl (by decide +kernel)

/-- The steps of the query of `outer`'s site in `nestedText`. -/
abbrev NestedStep (p : Program) : Position → Position → Prop :=
  Connects p nestedConfig (p.block 5).function [nestedSite 22] [13]
    (Barren p nestedConfig (p.block 5).function [nestedSite 22])

theorem query_complete_nested : ∃ p result, Program.load "nested" nestedText = .ok p ∧
    (p.op 6).block = some 5 ∧
    p.query nestedConfig (nestedSite 6) [nestedSite 22] [13] = .ok result ∧
    result.truncated = false ∧ (p.block 5).ops = [6, 8] ∧
    ReflTransGen (NestedStep p) ⟨5, [8]⟩ ⟨21, [22, 24, 25]⟩ ∧
    ∃ r ∈ result.reports, r.second.op = 22 := by
  obtain ⟨p, result, loaded, attached, answered, _, whole, _⟩ := nestedText_query
  obtain ⟨p', loaded', flow⟩ := nestedText_flow
  obtain rfl := Except.ok.inj (loaded.symm.trans loaded')
  obtain ⟨root, ops5, succ5, target8, ops9, target10, blocks3, ops18, target19, blocks4, ops21,
      name3, name4⟩ :=
    of_decide_eq_true flow
  have running {o : OpId} (h : o ≠ 22 ∧ o ≠ 13) : ¬ Halts [nestedSite 22] [13] o := by
    rintro (⟨member, mem, same⟩ | released)
    · rw [List.mem_singleton.mp mem] at same
      exact h.1 same.symm
    · exact h.2 (List.mem_singleton.mp released)
  have barren : Barren p nestedConfig (p.block 5).function [nestedSite 22] 8 := by
    intro g enters
    have target := enters.target
    rw [target8] at target
    cases target
  have leave : NestedStep p ⟨5, [8]⟩ ⟨5, []⟩ := .pass (running (by decide)) barren
  have loop : NestedStep p ⟨5, []⟩ ⟨9, [10, 11]⟩ := by
    rw [← ops9]
    exact .jump (succ5 ▸ List.mem_cons_self)
  have intoMid : NestedStep p ⟨9, [10, 11]⟩ ⟨18, [19, 20]⟩ := by
    have enters : Enters p nestedConfig (p.block 5).function 10 3 :=
      ⟨⟨target10, by rw [Function.isDeclaration, blocks3]; rfl, .inr name3⟩, by rw [root]; decide⟩
    rw [← ops18]
    exact .enter (running (by decide)) enters (by rw [Function.entryBlock?, blocks3]; rfl)
  have intoInner : NestedStep p ⟨18, [19, 20]⟩ ⟨21, [22, 24, 25]⟩ := by
    have enters : Enters p nestedConfig (p.block 5).function 19 4 :=
      ⟨⟨target19, by rw [Function.isDeclaration, blocks4]; rfl, .inr name4⟩, by rw [root]; decide⟩
    rw [← ops21]
    exact .enter (running (by decide)) enters (by rw [Function.entryBlock?, blocks4]; rfl)
  have path : ReflTransGen (NestedStep p) ⟨5, [8]⟩ ⟨21, [22, 24, 25]⟩ :=
    (((ReflTransGen.single leave).tail loop).tail intoMid).tail intoInner
  obtain ⟨result', answered', complete⟩ :=
    @query_complete _ _ _ p loaded nestedConfig (nestedSite 6) 5 attached [nestedSite 22] [13]
  obtain rfl := Except.ok.inj (answered.symm.trans answered')
  exact ⟨p, result, loaded, attached, answered, whole, ops5, path,
    @complete whole [] [8] ops5 _ _ _ path ⟨nestedSite 22, List.mem_singleton.mpr rfl, rfl⟩⟩

end Relock
