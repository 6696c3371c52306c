import Relock.LockSite
import Relock.Proofs.Pattern.Loader
import Relock.Proofs.Source.Decoder

/-!
# Arguments in range

A lock pattern names the arguments that hold the lock and the guard, and the least number of
arguments of a call. It is in range if a call with that many arguments has both. The built-in
patterns are in range, a pattern that is read is brought into range whatever its clauses say and in
which order, and putting one table in front of another changes no pattern: so all patterns of all
tables are in range (`PatternTable.Made.inRange`).

A call under a pattern in range can be wrong in two ways only: it has too few arguments, or it is to
give the guard as its result and has none. `Program.Sorts` says what classification by a table then
comes to.
-/

namespace Relock

/-! ## Patterns in range -/

namespace LockPattern

/-- A call with the least number of arguments has the lock and the guard among them. -/
structure InRange (pattern : LockPattern) : Prop where
  resource : pattern.resourceArg < pattern.minArgs
  guard : ∀ index, pattern.guardArg = some index → index < pattern.minArgs

theorem inRange_iff {pattern : LockPattern} : pattern.InRange ↔
    pattern.needed ≤ pattern.minArgs := by
  unfold needed
  cases place : pattern.guardArg with
  | none =>
    constructor
    · intro inRange
      exact inRange.resource
    · intro enough
      refine ⟨enough, fun index h => ?_⟩
      rw [place] at h
      cases h
  | some guard =>
    constructor
    · intro inRange
      exact Nat.max_lt.mpr ⟨inRange.resource, inRange.guard guard place⟩
    · intro enough
      obtain ⟨resource, inside⟩ := Nat.max_lt.mp enough
      refine ⟨resource, fun index h => ?_⟩
      cases place.symm.trans h
      exact inside

instance (pattern : LockPattern) : Decidable pattern.InRange := decidable_of_iff _ inRange_iff.symm

end LockPattern

/-! ## Tables -/

namespace PatternTable

def InRange (table : PatternTable) : Prop := ∀ pattern ∈ table.locks, pattern.InRange

/-- The tables there are: the built-in one, those that are read, and what is put together from
such. -/
inductive Made : PatternTable → Prop
  | builtin : Made builtin
  | read {reader : Sexp.Reader} {source text : String} {table : PatternTable}
      (parsed : parseWith reader source text = .ok table) : Made table
  | extended {table other : PatternTable} (made : Made table) (front : Made other) :
      Made (table.extended other)

theorem inRange_builtin : builtin.InRange := by
  unfold InRange
  decide

theorem InRange.extended {table other : PatternTable} (inRange : table.InRange)
    (front : other.InRange) :
    (table.extended other).InRange := by
  intro pattern mem
  rcases List.mem_append.mp mem with first | later
  · exact front pattern first
  · exact inRange pattern later

end PatternTable

namespace Pattern

/-- The last thing that is done to a pattern brings it into range. -/
theorem inRange_of_lockOf {parts : List Sexp} {pattern : LockPattern}
    (h : lockOf parts = .ok pattern) :
    pattern.InRange := by
  cases parts with
  | nil => cases h
  | cons name clauses =>
    obtain ⟨_, _, h⟩ := bind_eq_ok h
    obtain ⟨folded, _, h⟩ := bind_eq_ok h
    split at h
    next => cases h
    next =>
      cases h
      apply LockPattern.inRange_iff.mpr
      exact Nat.le_max_right folded.minArgs folded.needed

theorem inRange_of_itemOf {read read' : PatternTable × Bool} {item : Sexp}
    (inRange : read.1.InRange) (h : itemOf read item = .ok read') : read'.1.InRange := by
  obtain ⟨⟨tag, parts⟩, _, h⟩ := bind_eq_ok h
  split at h
  next =>
    obtain ⟨_, _, h⟩ := bind_eq_ok h
    split at h
    next =>
      cases h
      exact inRange
    next => cases h
  next => cases h
  next =>
    obtain ⟨_, _, h⟩ := bind_eq_ok h
    cases h
    exact inRange
  next =>
    obtain ⟨lock, read, h⟩ := bind_eq_ok h
    cases h
    intro pattern mem
    rcases List.mem_append.mp mem with earlier | here
    · exact inRange pattern earlier
    · rw [List.mem_singleton.mp here]
      exact inRange_of_lockOf read
  next =>
    obtain ⟨_, _, h⟩ := bind_eq_ok h
    cases h
    exact inRange
  next => cases h

theorem inRange_of_decode {form : Sexp} {table : PatternTable} (h : decode form = .ok table) :
    table.InRange := by
  obtain ⟨⟨tag, items⟩, _, h⟩ := bind_eq_ok h
  split at h
  next =>
    obtain ⟨⟨read, extends?⟩, folded, h⟩ := bind_eq_ok h
    have inRange : read.InRange :=
      keeps_of_foldlM (P := fun read => read.1.InRange) inRange_of_itemOf
        (List.forall_mem_nil _) folded
    cases h
    cases extends? with
    | false => exact inRange
    | true => exact PatternTable.inRange_builtin.extended inRange
  next => cases h

end Pattern

theorem PatternTable.inRange_of_parse {read : Sexp.Reader} {source text : String}
    {table : PatternTable} (h : PatternTable.parseWith read source text = .ok table) :
    table.InRange := by
  obtain ⟨form, _, h⟩ := Pattern.decode_of_parse h
  exact Pattern.inRange_of_decode h

/-- Every table has its patterns in range. -/
theorem PatternTable.Made.inRange {table : PatternTable} (made : table.Made) : table.InRange := by
  induction made with
  | builtin => exact PatternTable.inRange_builtin
  | read parsed => exact PatternTable.inRange_of_parse parsed
  | extended _ _ table other => exact table.extended other

/-! ## The pattern of a name -/

/-- A pattern takes a name: nothing that it excludes occurs in the name, and one of its matchers
accepts it. -/
def LockPattern.Takes (pattern : LockPattern) (name : String) : Prop :=
  (∀ piece ∈ pattern.exclude, occursIn piece name = false) ∧
    ∃ matcher ∈ pattern.matchers, matcher.accepts name = true

theorem LockPattern.accepts_iff {pattern : LockPattern} {name : String} :
    pattern.accepts name = true ↔ pattern.Takes name := by
  simp only [accepts, Takes, Bool.and_eq_true, Bool.not_eq_true', List.any_eq_false,
    List.any_eq_true, Bool.not_eq_true]

/-- A pattern is a table's choice for a name: nothing that the table excludes occurs in the name,
and the pattern is the first that takes it. -/
structure PatternTable.Chooses (table : PatternTable) (name : String)
    (pattern : LockPattern) : Prop where
  allowed : ∀ piece ∈ table.exclude, occursIn piece name = false
  takes : pattern.Takes name
  first : ∃ before after, table.locks = before ++ pattern :: after ∧
    ∀ earlier ∈ before, ¬ earlier.Takes name

theorem PatternTable.lock?_eq_some_iff {table : PatternTable} {name : String}
    {pattern : LockPattern} :
    table.lock? name = some pattern ↔ table.Chooses name pattern := by
  have allowed : (table.exclude.any (occursIn · name)) = false ↔
      ∀ piece ∈ table.exclude, occursIn piece name = false := by
    simp only [List.any_eq_false, Bool.not_eq_true]
  have first : table.locks.find? (·.accepts name) = some pattern ↔ pattern.Takes name ∧
      ∃ before after, table.locks = before ++ pattern :: after ∧
      ∀ earlier ∈ before, ¬ earlier.Takes name := by
    simp only [List.find?_eq_some_iff_append, LockPattern.accepts_iff,
      Bool.not_eq_true', ← Bool.not_eq_true]
  unfold PatternTable.lock?
  split
  next vetoed =>
    constructor
    · intro h
      cases h
    · intro chosen
      exact absurd (vetoed.symm.trans (allowed.mpr chosen.allowed)) Bool.noConfusion
  next clear =>
    rw [first]
    constructor
    · rintro ⟨takes, first⟩
      exact ⟨allowed.mp (Bool.not_eq_true _ ▸ clear), takes, first⟩
    · intro chosen
      exact ⟨chosen.takes, chosen.first⟩

theorem PatternTable.Chooses.mem {table : PatternTable} {name : String} {pattern : LockPattern}
    (chosen : table.Chooses name pattern) : pattern ∈ table.locks := by
  obtain ⟨before, after, split, _⟩ := chosen.first
  rw [split]
  exact List.mem_append_right _ List.mem_cons_self

/-! ## Calls under a pattern -/

/-- A call has the arguments that a pattern asks for, and somewhere to deliver the guard. -/
def LockPattern.Suits (pattern : LockPattern) (op : Operation) : Prop :=
  pattern.minArgs ≤ op.args.length ∧ (pattern.guardArg.isSome = true ∨ op.result.isSome = true)

/-- The guard of a call under a pattern. -/
def LockPattern.Delivers (pattern : LockPattern) (op : Operation) (guard : ValueId) : Prop :=
  match pattern.guardArg with
  | none => op.result = some guard
  | some index => op.args[index]? = some guard

/-- What is wrong with a call that does not suit its pattern. -/
def LockPattern.complaint (pattern : LockPattern) (op : Operation) : String :=
  if op.args.length < pattern.minArgs then
    s!"expected at least {pattern.minArgs} argument(s), got {op.args.length}"
  else "the guard result is discarded"

namespace LockPattern.InRange

variable {pattern : LockPattern} (inRange : pattern.InRange) {op : Operation}
include inRange

theorem resource_some (enough : pattern.minArgs ≤ op.args.length) :
    ∃ resource, op.args[pattern.resourceArg]? = some resource :=
  ⟨_, List.getElem?_eq_getElem (Nat.lt_of_lt_of_le inRange.resource enough)⟩

theorem guard_some (enough : pattern.minArgs ≤ op.args.length) {index : Nat}
    (place : pattern.guardArg = some index) :
    ∃ guard, op.args[index]? = some guard :=
  ⟨_, List.getElem?_eq_getElem (Nat.lt_of_lt_of_le (inRange.guard index place) enough)⟩

theorem partsOf_of_suits (suits : pattern.Suits op) :
    ∃ guard resource, Program.partsOf op pattern = .ok (guard, resource) ∧
      op.args[pattern.resourceArg]? = some resource ∧ pattern.Delivers op guard := by
  obtain ⟨enough, delivered⟩ := suits
  obtain ⟨resource, held⟩ := inRange.resource_some enough
  obtain ⟨guard, found, delivers⟩ : ∃ guard, Program.guardOf op pattern = .ok guard ∧
      pattern.Delivers op guard := by
    unfold Program.guardOf Delivers
    cases place : pattern.guardArg with
    | none =>
      rw [place] at delivered
      obtain ⟨v, result⟩ := Option.isSome_iff_exists.mp (delivered.resolve_left Bool.false_ne_true)
      exact ⟨v, by rw [result], result⟩
    | some index =>
      obtain ⟨v, argument⟩ := inRange.guard_some enough place
      exact ⟨v, by simp only [argument], argument⟩
  refine ⟨guard, resource, ?_, held, delivers⟩
  simp only [Program.partsOf, if_neg (Nat.not_lt_of_le enough), held, found]
  rfl

theorem partsOf_of_not_suits (other : ¬ pattern.Suits op) :
    Program.partsOf op pattern = .error (pattern.complaint op) := by
  unfold Program.partsOf complaint
  by_cases few : op.args.length < pattern.minArgs
  · rw [if_pos few, if_pos few]
  · rw [if_neg few, if_neg few]
    have enough : pattern.minArgs ≤ op.args.length := Nat.le_of_not_lt few
    obtain ⟨resource, held⟩ := inRange.resource_some enough
    have lost : pattern.guardArg = none ∧ op.result = none := by
      constructor
      · exact Option.not_isSome_iff_eq_none.mp fun given => other ⟨enough, .inl given⟩
      · exact Option.not_isSome_iff_eq_none.mp fun given => other ⟨enough, .inr given⟩
    simp only [held, Program.guardOf, lost]
    rfl

end LockPattern.InRange

/-! ## Classification -/

/-- The pattern that a table chooses for the function that an operation calls. -/
def Program.AcquiresBy (p : Program) (table : PatternTable) (o : OpId)
    (pattern : LockPattern) : Prop :=
  (∃ f, (p.op o).target? = some f) ∧ table.Chooses (p.op o).callee.name pattern

namespace Program

variable {p : Program} {table : PatternTable} {o : OpId}

theorem classify_of_parts {pattern : LockPattern} (acquires : p.AcquiresBy table o pattern)
    {guard resource : ValueId} (parts : partsOf (p.op o) pattern = .ok (guard, resource)) :
    p.classify table o =
      .site { op := o, guard := guard, resource := resource, mode := pattern.mode,
              wrapped := pattern.wrapped, pattern := pattern.name } := by
  obtain ⟨⟨f, target⟩, chosen⟩ := acquires
  simp only [classify, target, PatternTable.lock?_eq_some_iff.mpr chosen, parts]

theorem classify_of_reason {pattern : LockPattern} (acquires : p.AcquiresBy table o pattern)
    {reason : String} (parts : partsOf (p.op o) pattern = .error reason) :
    p.classify table o = .malformed
      { kind := .unparseable
        message := s!"could not parse lock site {(p.op o).callee.name} ({pattern.name}): {reason}"
        location := (p.op o).location, function := (p.functionNameOf o).getD "" } := by
  obtain ⟨⟨f, target⟩, chosen⟩ := acquires
  simp only [classify, target, PatternTable.lock?_eq_some_iff.mpr chosen, parts]

/-- What a table does not choose a pattern for is no acquisition. -/
theorem acquiresBy_of_classify (h : p.classify table o ≠ .other) :
    ∃ pattern, p.AcquiresBy table o pattern := by
  unfold classify at h
  cases target : (p.op o).target? with
  | none =>
    simp only [target] at h
    exact absurd rfl h
  | some f =>
    cases found : table.lock? (p.op o).callee.name with
    | none =>
      simp only [target, found] at h
      exact absurd rfl h
    | some pattern => exact ⟨pattern, ⟨f, target⟩, PatternTable.lock?_eq_some_iff.mp found⟩

/-- What classification by a table comes to at an operation: an acquisition that suits its pattern
is a site, with the lock and the guard where the pattern says; one that does not is noted, for one
of two reasons; anything else is neither. No argument is asked for that a call with enough arguments
lacks. -/
structure Sorts (p : Program) (table : PatternTable) (o : OpId) : Prop where
  site_iff : (∃ site, p.classify table o = .site site) ↔ ∃ pattern, p.AcquiresBy table o pattern ∧
    pattern.Suits (p.op o)
  note_iff : (∃ note, p.classify table o = .malformed note) ↔
    ∃ pattern, p.AcquiresBy table o pattern ∧ ¬ pattern.Suits (p.op o)
  site : ∀ {pattern site}, p.AcquiresBy table o pattern → p.classify table o = .site site →
    site.key = [o] ∧ (p.op o).args[pattern.resourceArg]? = some site.resource ∧
    pattern.Delivers (p.op o) site.guard ∧
      site.mode = pattern.mode ∧ site.wrapped = pattern.wrapped ∧ site.pattern = pattern.name
  note : ∀ {pattern note}, p.AcquiresBy table o pattern → p.classify table o = .malformed note →
    note.kind = .unparseable ∧ note.message =
      s!"could not parse lock site {(p.op o).callee.name} ({pattern.name}): {pattern.complaint (p.op o)}"
  reached : ∀ {pattern}, p.AcquiresBy table o pattern → pattern.minArgs ≤ (p.op o).args.length →
    (∃ resource, (p.op o).args[pattern.resourceArg]? = some resource) ∧
      ∀ index, pattern.guardArg = some index → ∃ guard, (p.op o).args[index]? = some guard

theorem site_of_suits {pattern : LockPattern} (inRange : pattern.InRange)
    (acquires : p.AcquiresBy table o pattern) (suits : pattern.Suits (p.op o)) :
    ∃ guard resource, p.classify table o =
      .site { op := o, guard := guard, resource := resource, mode := pattern.mode,
              wrapped := pattern.wrapped, pattern := pattern.name } ∧
    (p.op o).args[pattern.resourceArg]? = some resource ∧ pattern.Delivers (p.op o) guard := by
  obtain ⟨guard, resource, parts, held, delivers⟩ := inRange.partsOf_of_suits suits
  exact ⟨guard, resource, classify_of_parts acquires parts, held, delivers⟩

theorem note_of_not_suits {pattern : LockPattern} (inRange : pattern.InRange)
    (acquires : p.AcquiresBy table o pattern) (other : ¬ pattern.Suits (p.op o)) :
    p.classify table o = .malformed
      { kind := .unparseable
        message :=
          s!"could not parse lock site {(p.op o).callee.name} ({pattern.name}): {pattern.complaint (p.op o)}"
        location := (p.op o).location, function := (p.functionNameOf o).getD "" } :=
  classify_of_reason acquires (inRange.partsOf_of_not_suits other)

/-- A site suits the pattern of its call. -/
theorem suits_of_site {pattern : LockPattern} (inRange : pattern.InRange)
    (acquires : p.AcquiresBy table o pattern) {site : LockSite}
    (h : p.classify table o = .site site) : pattern.Suits (p.op o) := by
  refine Classical.byContradiction fun other => ?_
  cases h.symm.trans (note_of_not_suits inRange acquires other)

theorem not_suits_of_note {pattern : LockPattern} (inRange : pattern.InRange)
    (acquires : p.AcquiresBy table o pattern) {note : Note}
    (h : p.classify table o = .malformed note) : ¬ pattern.Suits (p.op o) := by
  intro suits
  obtain ⟨_, _, is, _, _⟩ := site_of_suits inRange acquires suits
  cases h.symm.trans is

theorem sorts_of_inRange (inRange : table.InRange) (p : Program) (o : OpId) : p.Sorts table o := by
  have ranged {pattern : LockPattern} (acquires : p.AcquiresBy table o pattern) : pattern.InRange :=
    inRange pattern acquires.2.mem
  constructor
  case site_iff =>
    constructor
    · rintro ⟨site, is⟩
      obtain ⟨pattern, acquires⟩ :=
        acquiresBy_of_classify (by rw [is]; exact Classified.noConfusion)
      exact ⟨pattern, acquires, suits_of_site (ranged acquires) acquires is⟩
    · rintro ⟨pattern, acquires, suits⟩
      obtain ⟨_, _, is, _, _⟩ := site_of_suits (ranged acquires) acquires suits
      exact ⟨_, is⟩
  case note_iff =>
    constructor
    · rintro ⟨note, is⟩
      obtain ⟨pattern, acquires⟩ :=
        acquiresBy_of_classify (by rw [is]; exact Classified.noConfusion)
      exact ⟨pattern, acquires, not_suits_of_note (ranged acquires) acquires is⟩
    · rintro ⟨pattern, acquires, other⟩
      exact ⟨_, note_of_not_suits (ranged acquires) acquires other⟩
  case site =>
    intro pattern site acquires is
    have suits := suits_of_site (ranged acquires) acquires is
    obtain ⟨guard, resource, found, held, delivers⟩ :=
      site_of_suits (ranged acquires) acquires suits
    cases is.symm.trans found
    exact ⟨rfl, held, delivers, rfl, rfl, rfl⟩
  case note =>
    intro pattern note acquires is
    have other := not_suits_of_note (ranged acquires) acquires is
    cases is.symm.trans (note_of_not_suits (ranged acquires) acquires other)
    exact ⟨rfl, rfl⟩
  case reached =>
    intro pattern acquires enough
    refine ⟨(ranged acquires).resource_some enough, fun index place => ?_⟩
    exact (ranged acquires).guard_some enough place

end Program

/-- In every table there is, the arguments that lock patterns name are among the least number of
arguments, and classification by the table never asks for an argument that a call lacks. -/
theorem classify_inRange {table : PatternTable} (made : table.Made) :
    (∀ pattern ∈ table.locks, pattern.resourceArg < pattern.minArgs ∧
      ∀ index, pattern.guardArg = some index → index < pattern.minArgs) ∧
    ∀ (p : Program) (o : OpId), p.Sorts table o := by
  have inRange := made.inRange
  constructor
  · intro pattern mem
    exact ⟨(inRange pattern mem).resource, (inRange pattern mem).guard⟩
  · exact Program.sorts_of_inRange inRange

/-- A lock whose arguments lie past the number that it asks for. -/
def widenedText : String := "(patterns (extends default)
  (lock slot (min-args 1) (guard arg 0) (resource 1) (match exact \"take\") (guard arg 2)))"

set_option maxRecDepth 4000 in
theorem classify_inRange_widened : ∃ table, PatternTable.parse "widened" widenedText = .ok table ∧
    table.locks.map (·.minArgs) = [3, 2, 1, 2, 1, 1, 1, 1, 1, 1, 1, 1, 1] ∧
    ∀ (p : Program) (o : OpId), p.Sorts table o := by
  obtain ⟨table, parsed, checked⟩ : ∃ table, PatternTable.parse "widened" widenedText = .ok table ∧
      decide (table.locks.map (·.minArgs) = [3, 2, 1, 2, 1, 1, 1, 1, 1, 1, 1, 1, 1]) = true :=
    exists_of_any (by decide +kernel)
  exact ⟨table, parsed, of_decide_eq_true checked, (classify_inRange (.read parsed)).2⟩

end Relock
