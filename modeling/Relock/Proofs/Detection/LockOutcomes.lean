import Relock.Proofs.Detection.Sites
import Relock.Proofs.Pattern.InRange
import Relock.Proofs.Program.Numbering

/-!
# What lock calls come to

Every call of a known function that a lock pattern takes comes to one thing: a site, or a note on
why it is none. The sites and the notes of a program are the two halves of the row of these
outcomes, and nothing else is in them. The row follows program order, which in a loaded program is
the order of the operations' numbers, so that the sites come out sorted by their keys although
nothing sorts them.
-/

namespace Relock

namespace Program

/-- What a lock call comes to. -/
abbrev LockOutcome := LockSite ⊕ Note

/-- A call of a known function from the body of a function, in local code if the settings ask for
it, with a name that a lock pattern takes. -/
structure LockCall (p : Program) (config : Config) (o : OpId) : Prop where
  body : ∃ f ∈ p.definedFunctions, o ∈ p.opsOf f
  inScope : config.localOnly = true → ∃ place, (p.op o).location = some place ∧ place.isLocal = true
  acquires : ∃ pattern, p.AcquiresBy config.patterns o pattern

/-- The outcome of a call under its pattern: a site if the call has the parts of one, else a
note. -/
inductive Yields (p : Program) (table : PatternTable) (o : OpId) : LockOutcome → Prop
  | site {pattern : LockPattern} {guard resource : ValueId}
      (acquires : p.AcquiresBy table o pattern)
      (parts : partsOf (p.op o) pattern = .ok (guard, resource)) :
      Yields p table o (.inl { op := o, guard := guard, resource := resource, mode := pattern.mode,
                               wrapped := pattern.wrapped, pattern := pattern.name })
  | note {pattern : LockPattern} {reason : String} (acquires : p.AcquiresBy table o pattern)
      (parts : partsOf (p.op o) pattern = .error reason) :
      Yields p table o (.inr
        { kind := .unparseable
          message :=
            s!"could not parse lock site {(p.op o).callee.name} ({pattern.name}): {reason}"
          location := (p.op o).location, function := (p.functionNameOf o).getD "" })

/-- A row of calls with their outcomes accounts for what is found in a program. -/
structure LockAccount (p : Program) (config : Config)
    (calls : List (OpId × LockOutcome)) : Prop where
  order : List.Sublist (calls.map (·.1)) p.allOps
  call_iff : ∀ {o}, o ∈ calls.map (·.1) ↔ p.LockCall config o
  yields_iff : ∀ {o outcome}, (o, outcome) ∈ calls ↔ p.LockCall config o ∧
    p.Yields config.patterns o outcome
  sites : p.lockSites config = calls.filterMap fun call => call.2.getLeft?
  notes : p.lockNotes config = calls.filterMap fun call => call.2.getRight?

/-! ## The row of outcomes -/

/-- What is kept of a classified operation. -/
def Classified.outcome? : Classified → Option LockOutcome
  | .other => none
  | .site found => some (.inl found)
  | .malformed note => some (.inr note)

/-- The lock calls within the settings, with their outcomes. -/
def lockOutcomes (p : Program) (config : Config) : List (OpId × LockOutcome) :=
  (p.allOps.filter (p.isInScope config)).filterMap fun o =>
    (p.classify config.patterns o).outcome?.map fun is => (o, is)

variable {p : Program} {config : Config} {table : PatternTable} {o : OpId} {outcome : LockOutcome}

theorem yields_iff_outcome? : p.Yields table o outcome ↔
    (p.classify table o).outcome? = some outcome := by
  constructor
  · intro yields
    cases yields with
    | site acquires parts => rw [classify_of_parts acquires parts, Classified.outcome?]
    | note acquires parts => rw [classify_of_reason acquires parts, Classified.outcome?]
  · intro is
    have acquisition : p.classify table o ≠ .other := by
      intro other
      rw [other] at is
      cases is
    obtain ⟨pattern, acquires⟩ := acquiresBy_of_classify acquisition
    cases parts : partsOf (p.op o) pattern with
    | ok found =>
      rw [classify_of_parts acquires parts] at is
      cases is
      exact .site acquires parts
    | error reason =>
      rw [classify_of_reason acquires parts] at is
      cases is
      exact .note acquires parts

/-- A call that a pattern takes has an outcome. -/
theorem exists_yields {pattern : LockPattern} (acquires : p.AcquiresBy table o pattern) :
    ∃ outcome, p.Yields table o outcome := by
  cases parts : partsOf (p.op o) pattern with
  | ok found => exact ⟨_, .site acquires parts⟩
  | error reason => exact ⟨_, .note acquires parts⟩

theorem Yields.acquires (yields : p.Yields table o outcome) :
    ∃ pattern, p.AcquiresBy table o pattern := by
  cases yields with
  | site acquires _ => exact ⟨_, acquires⟩
  | note acquires _ => exact ⟨_, acquires⟩

theorem mem_lockOutcomes : (o, outcome) ∈ p.lockOutcomes config ↔
    p.LockCall config o ∧ p.Yields config.patterns o outcome := by
  simp only [lockOutcomes, List.mem_filterMap, List.mem_filter, Option.map_eq_some_iff,
    Prod.mk.injEq, isInScope_iff, ← yields_iff_outcome?]
  constructor
  · rintro ⟨_, ⟨mem, inScope⟩, _, yields, rfl, rfl⟩
    exact ⟨⟨List.mem_flatMap.mp mem, inScope, yields.acquires⟩, yields⟩
  · rintro ⟨call, yields⟩
    exact ⟨o, ⟨List.mem_flatMap.mpr call.body, call.inScope⟩, outcome, yields, rfl, rfl⟩

theorem lockOutcomes_sublist (p : Program) (config : Config) :
    List.Sublist ((p.lockOutcomes config).map (·.1)) p.allOps := by
  have kept : (p.lockOutcomes config).map (·.1) = (p.allOps.filter (p.isInScope config)).filterMap
      (Option.guard fun o => (p.classify config.patterns o).outcome?.isSome) := by
    rw [lockOutcomes, List.map_filterMap]
    apply List.filterMap_congr
    intro o _
    cases is : (p.classify config.patterns o).outcome? with
    | none =>
      simp only [Option.map_none, Option.guard, is, Option.isSome_none, Bool.false_eq_true,
        if_false]
    | some outcome => simp only [Option.map_some, Option.guard, is, Option.isSome_some, if_true]
  rw [kept, List.filterMap_eq_filter]
  exact List.filter_sublist.trans List.filter_sublist

/-- What is picked from the outcomes is picked from the classified operations. -/
theorem filterMap_lockOutcomes {β : Type} (pick : LockOutcome → Option β) :
    (p.lockOutcomes config).filterMap (fun call => pick call.2) =
      (p.classified config).filterMap fun is => is.outcome?.bind pick := by
  rw [lockOutcomes, classified, List.filterMap_map, List.filterMap_filterMap]
  apply List.filterMap_congr
  intro o _
  exact Option.bind_map

/-- The outcomes account for the sites and the notes of a program. -/
theorem lockAccount_lockOutcomes (p : Program) (config : Config) :
    p.LockAccount config (p.lockOutcomes config) where
  order := lockOutcomes_sublist p config
  call_iff := by
    intro o
    constructor
    · intro mem
      obtain ⟨⟨_, outcome⟩, held, rfl⟩ := List.mem_map.mp mem
      exact (mem_lockOutcomes.mp held).1
    · intro call
      obtain ⟨pattern, acquires⟩ := call.acquires
      obtain ⟨outcome, yields⟩ := exists_yields acquires
      exact List.mem_map.mpr ⟨(o, outcome), mem_lockOutcomes.mpr ⟨call, yields⟩, rfl⟩
  yields_iff := mem_lockOutcomes
  sites := by
    rw [filterMap_lockOutcomes, lockSites]
    apply List.filterMap_congr
    intro is _
    cases is <;> rfl
  notes := by
    rw [filterMap_lockOutcomes, lockNotes]
    apply List.filterMap_congr
    intro is _
    cases is <;> rfl

/-! ## The order of the sites -/

section Account

variable {calls : List (OpId × LockOutcome)} (account : p.LockAccount config calls)
include account

/-- A site has the key of its call. -/
theorem LockAccount.key_eq {site : LockSite} (mem : (o, .inl site) ∈ calls) : site.key = [o] := by
  obtain ⟨_, yields⟩ := account.yields_iff.mp mem
  cases yields
  rfl

/-- The sites are in the order of their calls. -/
theorem LockAccount.sites_increasing (increasing : (calls.map (·.1)).Pairwise (· < ·)) :
    (p.lockSites config).Pairwise fun a b => a.key < b.key := by
  rw [account.sites]
  apply List.pairwise_filterMap.mpr
  apply List.Pairwise.imp_of_mem _ (List.pairwise_map.mp increasing)
  rintro ⟨o, outcome⟩ ⟨o', outcome'⟩ mem mem' less site is site' is'
  obtain rfl := Sum.getLeft?_eq_some_iff.mp is
  obtain rfl := Sum.getLeft?_eq_some_iff.mp is'
  rw [account.key_eq mem, account.key_eq mem']
  exact List.Lex.rel less

end Account

end Program

/-- The sites of a loaded program are found in the order of their keys, which is program order,
without being sorted. The lock calls within the settings come to one site or one note each, in
program order, and nothing else comes to any. -/
theorem lockSites_in_order {read : Sexp.Reader} {file text : String} {p : Program}
    (loaded : Program.loadWith read file text = .ok p) (config : Config) :
    p.allOps.Pairwise (· < ·) ∧ ((p.lockSites config).Pairwise fun a b => a.key < b.key) ∧
      ∃ calls, p.LockAccount config calls ∧ (calls.map (·.1)).Pairwise (· < ·) := by
  have increasing := Program.allOps_increasing_of_load loaded
  have account := Program.lockAccount_lockOutcomes p config
  have ordered : ((p.lockOutcomes config).map (·.1)).Pairwise (· < ·) :=
    increasing.sublist account.order
  exact ⟨increasing, account.sites_increasing ordered, p.lockOutcomes config, account, ordered⟩

/-- Functions that are called before their bodies, one that is only called, and lock calls in all
places: in two blocks, with a guard that is discarded, and outside local code. -/
def stagedText : String := "(module staged (global lock (ptr i64))
(function \"main\" (params)
  (block a (call g (ptr i8) \"take\" lock (at \"m.rs\" 1 \"/w\")) (call _ void \"late\") (br b))
  (block b (call _ void \"helper\") (call h (ptr i8) \"take\" lock (at \"m.rs\" 2 \"/w\")) (ret)))
(function \"late\" (params)
  (block a (call _ void \"take\" lock (at \"l.rs\" 3 \"/w\")) (call i (ptr i8) \"take\" lock)
    (call k (ptr i8) \"take\" lock (at \"l.rs\" 4 \"/w\")) (ret))))"

def stagedConfig : Config :=
  { localOnly := true,
    patterns := { locks := [{ name := "take", matchers := [⟨.equals, "take"⟩] }] } }

set_option maxRecDepth 4000 in
theorem lockSites_in_order_staged : ∃ p, Program.load "staged" stagedText = .ok p ∧
    (p.lockSites stagedConfig).map (·.key) = [[5], [11], [20]] ∧
    (p.lockNotes stagedConfig).map (·.message) =
      ["could not parse lock site take (take): the guard result is discarded"] ∧
    ((p.lockSites stagedConfig).Pairwise fun a b => a.key < b.key) ∧
    ∃ calls, p.LockAccount stagedConfig calls ∧ (calls.map (·.1)).Pairwise (· < ·) := by
  obtain ⟨p, loaded, checked⟩ : ∃ p, Program.load "staged" stagedText = .ok p ∧
      decide ((p.lockSites stagedConfig).map (·.key) = [[5], [11], [20]] ∧
        (p.lockNotes stagedConfig).map (·.message) =
          ["could not parse lock site take (take): the guard result is discarded"]) = true :=
    Program.exists_of_load rfl (by decide +kernel)
  obtain ⟨sites, notes⟩ := of_decide_eq_true checked
  obtain ⟨_, increasing, account⟩ := lockSites_in_order loaded stagedConfig
  exact ⟨p, loaded, sites, notes, increasing, account⟩

end Relock
