import Relock.Proofs.Alias.Replay
import Relock.Proofs.Detection.Run

/-!
# Checkers side by side

The checkers of a run share what the alias oracle remembers, and a double-lock check may fail over
it halfway. Neither shows: a memo that an earlier double-lock check left holds the answers that a
fresh oracle gives to the same questions, so that a later check finds what the first one did. What a
row of checkers tells is therefore what each of them tells when it is alone, one after the other,
and a checker that fails adds one note to those it had recorded.
-/

namespace Relock

namespace Program

/-- A checker fails, after the notes it has recorded: of its own accord, or the double-lock check
because the guards cannot be followed or the sites cannot be grouped. -/
inductive Fails (p : Program) (config : Config) (oracle : Oracle) : Checker → List Note →
    String → Prop where
  | ownAccord (name reason : String) (recorded : List Note) :
      Fails p config oracle (.failing name reason recorded) recorded reason
  | unheld {failure : Failure} : p.holdings config = .error failure →
      Fails p config oracle .doubleLock (p.lockNotes config) failure.message
  | ungrouped {holdings : List Holding} {failure : Failure} : p.holdings config = .ok holdings →
      p.aliasGroups oracle {} (holdings.map (·.site)) = .error failure →
      Fails p config oracle .doubleLock (p.lockNotes config) failure.message

variable {p : Program} {config : Config} {oracle : Oracle}

/-! ## The double-lock check -/

theorem kind_of_classify {table : PatternTable} {o : OpId} {note : Note}
    (h : p.classify table o = .malformed note) : note.kind = .unparseable := by
  unfold classify at h
  dsimp only at h
  repeat' split at h
  all_goals cases h
  rfl

theorem kind_of_mem_lockNotes {note : Note} (h : note ∈ p.lockNotes config) :
    note.kind = .unparseable := by
  obtain ⟨found, mem, is⟩ := List.mem_filterMap.mp h
  obtain ⟨o, _, rfl⟩ := List.mem_map.mp mem
  split at is
  · rename_i malformed
    cases is
    exact kind_of_classify malformed
  · cases is

theorem kind_of_mem_groupNotes {sites : List LockSite} {note : Note}
    (h : note ∈ p.groupNotes sites) :
    note.kind = .missingType := by
  obtain ⟨site, _, rfl⟩ := List.mem_map.mp h
  rfl

/-- Where every site stands in a block, every query starts. -/
theorem kind_of_mem_queryRound {groups : Groups} {holdings : List Holding}
    (attached : ∀ h ∈ holdings, ∃ b, (p.op h.site.op).block = some b) {note : Note}
    (h : note ∈ (p.queryRound config groups holdings).notes) : note.kind = .truncated := by
  obtain ⟨round, mem, told⟩ := List.mem_flatMap.mp h
  obtain ⟨held, among, rfl⟩ := List.mem_map.mp mem
  obtain ⟨b, inside⟩ := attached held among
  obtain ⟨result, answered⟩ :=
    query_answers config inside (groups.group held.site) held.lifetime.releaseSet
  simp only [siteQuery, answered] at told
  split at told
  · rw [List.mem_singleton.mp told]
    rfl
  · cases told

/-- The double-lock check itself records no note on a failure. -/
theorem kind_of_mem_evidence (finished : p.Finished) {memo : Oracle.Memo} {note : Note}
    (h : note ∈ (p.evidence config oracle memo).notes) : note.kind ≠ .internalError := by
  obtain ⟨holdings, found, _, held⟩ := holdings_found finished config
  have attached : ∀ h ∈ holdings, ∃ b, (p.op h.site.op).block = some b :=
    fun h mem => block_of_mem_allOps finished.shape (held h mem).mem_ops
  simp only [evidence, found] at h
  split at h
  · rw [kind_of_mem_lockNotes h]
    decide
  · rcases List.mem_append.mp h with h | h
    · rcases List.mem_append.mp h with h | h
      · rw [kind_of_mem_lockNotes h]
        decide
      · rw [kind_of_mem_groupNotes h]
        decide
    · rw [kind_of_mem_queryRound attached h]
      decide

/-- What the oracle may remember between checkers: nothing, or what grouping the sites leaves. -/
def Settled (p : Program) (config : Config) (oracle : Oracle) (memo : Oracle.Memo) : Prop :=
  memo = {} ∨ ∃ holdings groups, p.holdings config = .ok holdings ∧
    p.aliasGroups oracle {} (holdings.map (·.site)) = .ok (groups, memo)

theorem queryRound_congr {groups others : Groups}
    (same : ∀ site, others.group site = groups.group site) (holdings : List Holding) :
    p.queryRound config others holdings = p.queryRound config groups holdings := by
  have one : p.siteQuery config others = p.siteQuery config groups := by
    funext held
    simp only [siteQuery, same]
  simp only [queryRound, one]

/-- A double-lock check after others tells what it tells alone. -/
theorem evidence_settled {memo : Oracle.Memo} (settled : p.Settled config oracle memo) :
    (p.evidence config oracle memo).notes = (p.evidence config oracle {}).notes ∧
    (p.evidence config oracle memo).failure = (p.evidence config oracle {}).failure ∧
    (p.evidence config oracle memo).phases.queries = (p.evidence config oracle {}).phases.queries ∧
    p.Settled config oracle (p.evidence config oracle memo).memo := by
  rcases settled with rfl | ⟨holdings, groups, found, grouped⟩
  · refine ⟨rfl, rfl, rfl, ?_⟩
    cases found : p.holdings config with
    | error failure =>
      left
      simp only [evidence, found]
    | ok holdings =>
      cases grouped : p.aliasGroups oracle {} (holdings.map (·.site)) with
      | error failure =>
        left
        simp only [evidence, found, grouped]
      | ok answer =>
        right
        refine ⟨holdings, answer.1, found, ?_⟩
        simp only [evidence, found, grouped]
  · obtain ⟨again, regrouped, same⟩ := aliasGroups_again grouped (.refl memo)
    simp only [evidence, found, grouped, regrouped, queryRound_congr same, true_and]
    exact .inr ⟨holdings, groups, found, grouped⟩

/-- A double-lock check that does not fail has asked its queries. -/
theorem queries_of_evidence {memo : Oracle.Memo}
    (ended : (p.evidence config oracle memo).failure = none) :
    ∃ round, (p.evidence config oracle memo).phases.queries = some round := by
  unfold evidence at ended ⊢
  cases found : p.holdings config with
  | error failure =>
    rw [found] at ended
    cases ended
  | ok holdings =>
    simp only [found] at ended ⊢
    cases grouped : p.aliasGroups oracle memo (holdings.map (·.site)) with
    | error failure =>
      rw [grouped] at ended
      cases ended
    | ok answer => exact ⟨_, rfl⟩

/-- The reasons that the double-lock check fails for. -/
theorem fails_of_evidence {failure : Failure}
    (ended : (p.evidence config oracle {}).failure = some failure) :
    p.Fails config oracle .doubleLock (p.lockNotes config) failure.message := by
  unfold evidence at ended
  cases found : p.holdings config with
  | error failure =>
    rw [found] at ended
    cases ended
    exact .unheld found
  | ok holdings =>
    simp only [found] at ended
    cases grouped : p.aliasGroups oracle {} (holdings.map (·.site)) with
    | error failure =>
      rw [grouped] at ended
      cases ended
      exact .ungrouped found grouped
    | ok answer =>
      rw [grouped] at ended
      cases ended

theorem evidence_of_fails {recorded : List Note} {reason : String}
    (fails : p.Fails config oracle .doubleLock recorded reason) :
    (p.evidence config oracle {}).notes = recorded ∧
      (p.evidence config oracle {}).failure.map Failure.message = some reason := by
  cases fails with
  | unheld found =>
    simp only [evidence, found, Option.map_some, true_and]
  | ungrouped found grouped =>
    simp only [evidence, found, grouped, Option.map_some, true_and]

end Program

/-! ## Rows of checkers -/

/-- A run goes on with what another run tells. -/
structure Detection.Adds (before part after : Detection) : Prop where
  diagnostics : after.diagnostics = before.diagnostics ++ part.diagnostics
  notes : after.notes = before.notes ++ part.notes
  ran : after.ran = before.ran ++ part.ran

theorem Detection.Adds.trans {before between after first rest both : Detection}
    (one : before.Adds first between) (two : between.Adds rest after)
    (together : first.Adds rest both) : before.Adds both after where
  diagnostics := by rw [two.diagnostics, one.diagnostics, together.diagnostics, List.append_assoc]
  notes := by rw [two.notes, one.notes, together.notes, List.append_assoc]
  ran := by rw [two.ran, one.ran, together.ran, List.append_assoc]

namespace Program

variable {p : Program} {config : Config} {oracle : Oracle} (suppressions : Suppressions)

/-- A checker after others tells what it tells alone. -/
theorem runChecker_adds {d : Detection} (settled : p.Settled config oracle d.memo)
    (checker : Checker) :
    d.Adds (p.detect config oracle suppressions [checker])
    (p.runChecker config oracle suppressions d checker) ∧
      p.Settled config oracle (p.runChecker config oracle suppressions d checker).memo := by
  cases checker with
  | standalone name diagnose => exact ⟨⟨rfl, (List.append_nil _).symm, rfl⟩, settled⟩
  | failing name reason recorded =>
    exact ⟨⟨(List.append_nil _).symm, List.append_assoc .., rfl⟩, settled⟩
  | doubleLock =>
    obtain ⟨notes, failure, queries, settled⟩ := evidence_settled settled
    simp only [detect, List.foldl_cons, List.foldl_nil, runChecker, failure, notes]
    cases ended : (p.evidence config oracle {}).failure with
    | some failure =>
      refine ⟨⟨(List.append_nil _).symm, ?_, rfl⟩, settled⟩
      simp only [List.nil_append, List.append_assoc]
    | none =>
      obtain ⟨round, asked⟩ := queries_of_evidence ended
      refine ⟨⟨?_, rfl, rfl⟩, settled⟩
      simp only [Detection.reports, Phases.over, queries, asked, List.nil_append]
      rfl

/-- What a row of checkers adds to a run is what it tells alone. -/
theorem foldl_adds (checkers : List Checker) {d : Detection}
    (settled : p.Settled config oracle d.memo) :
    d.Adds (p.detect config oracle suppressions checkers)
    (checkers.foldl (p.runChecker config oracle suppressions) d) ∧
      p.Settled config oracle
      (checkers.foldl (p.runChecker config oracle suppressions) d).memo := by
  induction checkers generalizing d with
  | nil =>
    exact ⟨⟨(List.append_nil _).symm, (List.append_nil _).symm, (List.append_nil _).symm⟩, settled⟩
  | cons checker checkers ih =>
    obtain ⟨first, next⟩ := runChecker_adds suppressions settled checker
    obtain ⟨_, alone⟩ := runChecker_adds (d := {}) suppressions (.inl rfl) checker
    obtain ⟨rest, last⟩ := ih next
    exact ⟨first.trans rest (ih alone).1, last⟩

/-- Two rows of checkers one after the other tell what each of them tells. -/
theorem detect_adds (xs ys : List Checker) :
    (p.detect config oracle suppressions xs).Adds (p.detect config oracle suppressions ys)
      (p.detect config oracle suppressions (xs ++ ys)) := by
  have settled : p.Settled config oracle (p.detect config oracle suppressions xs).memo :=
    (foldl_adds suppressions xs (.inl rfl)).2
  have whole : p.detect config oracle suppressions (xs ++ ys) =
      ys.foldl (p.runChecker config oracle suppressions) (p.detect config oracle suppressions xs) :=
    List.foldl_append ..
  rw [whole]
  exact (foldl_adds suppressions ys settled).1

/-- Every checker runs. -/
theorem detect_ran (checkers : List Checker) :
    (p.detect config oracle suppressions checkers).ran = checkers.map Checker.name := by
  induction checkers with
  | nil => rfl
  | cons checker checkers ih =>
    have one : (p.detect config oracle suppressions [checker]).ran = [checker.name] := by
      cases checker with
      | standalone name diagnose => rfl
      | failing name reason recorded => rfl
      | doubleLock =>
        simp only [detect, List.foldl_cons, List.foldl_nil, runChecker]
        cases (p.evidence config oracle {}).failure <;> rfl
    rw [← List.singleton_append, (detect_adds suppressions [checker] checkers).ran, one, ih]
    rfl

/-- A checker that fails tells nothing, and adds one note to those it has recorded. -/
theorem detect_of_fails {checker : Checker} {recorded : List Note} {reason : String}
    (fails : p.Fails config oracle checker recorded reason) :
    (p.detect config oracle suppressions [checker]).diagnostics = [] ∧
      (p.detect config oracle suppressions [checker]).notes =
        recorded ++ [Detection.failureNote checker.name reason] := by
  cases checker with
  | standalone name diagnose => cases fails
  | failing name reason recorded =>
    cases fails
    exact ⟨rfl, rfl⟩
  | doubleLock =>
    obtain ⟨notes, failed⟩ := evidence_of_fails fails
    obtain ⟨failure, ended, rfl⟩ := Option.map_eq_some_iff.mp failed
    simp only [detect, List.foldl_cons, List.foldl_nil, runChecker, ended, notes, List.nil_append,
      and_self]

/-- Only a checker that fails leaves the note that it failed. -/
theorem fails_of_mem_notes (finished : p.Finished) {checker : Checker} {note : Note}
    (mem : note ∈ (p.detect config oracle suppressions [checker]).notes)
    (kind : note.kind = .internalError) :
    ∃ recorded reason, p.Fails config oracle checker recorded reason := by
  cases checker with
  | standalone name diagnose => cases mem
  | failing name reason recorded => exact ⟨recorded, reason, .ownAccord name reason recorded⟩
  | doubleLock =>
    cases ended : (p.evidence config oracle {}).failure with
    | some failure => exact ⟨p.lockNotes config, failure.message, fails_of_evidence ended⟩
    | none =>
      simp only [detect, List.foldl_cons, List.foldl_nil, runChecker, ended, List.nil_append] at mem
      exact absurd kind (kind_of_mem_evidence finished mem)

end Program

/-- Checkers do not get into each other's way. Every checker of a row runs, and two rows one after
the other tell what each of them tells alone. A checker that fails gives no diagnostic, and one note
after those it has recorded; a checker that does not fail has no note of that kind, and the
double-lock check records none before it fails. -/
theorem detect_isolated {read : Sexp.Reader} {file text : String} {p : Program}
    (loaded : Program.loadWith read file text = .ok p) (config : Config)
    (oracle : Oracle) (suppressions : Suppressions) (xs ys : List Checker) :
    let run := p.detect config oracle suppressions
    (run (xs ++ ys)).diagnostics = (run xs).diagnostics ++ (run ys).diagnostics ∧
    (run (xs ++ ys)).notes = (run xs).notes ++ (run ys).notes ∧
    (run xs).ran = xs.map Checker.name ∧
    (∀ checker recorded reason, p.Fails config oracle checker recorded reason →
      (run [checker]).diagnostics = [] ∧
      (run [checker]).notes = recorded ++ [Detection.failureNote checker.name reason] ∧
      (checker = .doubleLock → ∀ note ∈ recorded, note.kind ≠ .internalError)) ∧
    ∀ checker, (∃ note ∈ (run [checker]).notes, note.kind = .internalError) ↔
      ∃ recorded reason, p.Fails config oracle checker recorded reason := by
  intro run
  have adds : (run xs).Adds (run ys) (run (xs ++ ys)) := Program.detect_adds suppressions xs ys
  refine ⟨adds.diagnostics, adds.notes, Program.detect_ran suppressions xs, ?_,
    fun checker => ⟨?_, ?_⟩⟩
  · intro checker recorded reason fails
    obtain ⟨diagnostics, notes⟩ := Program.detect_of_fails suppressions fails
    refine ⟨diagnostics, notes, ?_⟩
    rintro rfl note mem
    rw [← (Program.evidence_of_fails fails).1] at mem
    exact Program.kind_of_mem_evidence (Program.finished_of_load loaded) mem
  · rintro ⟨note, mem, kind⟩
    exact Program.fails_of_mem_notes suppressions (Program.finished_of_load loaded) mem kind
  · rintro ⟨recorded, reason, fails⟩
    refine ⟨Detection.failureNote checker.name reason, ?_, rfl⟩
    rw [(Program.detect_of_fails suppressions fails).2]
    exact List.mem_append_right _ (List.mem_singleton_self _)

def twiceText : String := "(module twice (struct Mutex i64)
(function \"main\" (params (m (ptr Mutex)))
  (block a (call g (ptr i8) \"take\" m) (call h (ptr i8) \"take\" m)
    (call _ void \"drop\" h) (call _ void \"drop\" g) (ret))))"

set_option maxRecDepth 4000 in
/-- A double lock is found with a broken checker before and a repeated check behind it; an oracle
that fails ends the check with a note. -/
theorem detect_isolated_twice : ∃ p, Program.load "twice" twiceText = .ok p ∧
    (p.detect nestedConfig .structural {} [.doubleLock]).diagnostics.length = 1 ∧
    (p.detect nestedConfig .structural {} ([.failing "broken" "boom", .doubleLock] ++
      [.doubleLock])).diagnostics.length = 2 ∧
    (p.detect nestedConfig .structural {} ([.failing "broken" "boom", .doubleLock] ++
      [.doubleLock])).notes =
        [Detection.failureNote "broken" "boom"] ∧
    ∃ recorded reason, p.Fails nestedConfig (.failing "lost") .doubleLock recorded reason := by
  obtain ⟨p, loaded, checked⟩ : ∃ p, Program.load "twice" twiceText = .ok p ∧
      decide ((p.detect nestedConfig .structural {} [.doubleLock]).diagnostics.length = 1 ∧
        (p.detect nestedConfig .structural {} [.doubleLock]).notes = [] ∧
        (p.detect nestedConfig .structural {} [.failing "broken" "boom",
          .doubleLock]).diagnostics.length = 1 ∧
        (p.detect nestedConfig .structural {} [.failing "broken" "boom", .doubleLock]).notes =
          [Detection.failureNote "broken" "boom"] ∧
        ∃ note ∈ (p.detect nestedConfig (.failing "lost") {} [.doubleLock]).notes,
        note.kind = .internalError) = true :=
    Program.exists_of_load rfl (by decide +kernel)
  obtain ⟨alone, quiet, broken, told, lost⟩ := of_decide_eq_true checked
  obtain ⟨diagnostics, notes, _⟩ :=
    detect_isolated loaded nestedConfig .structural {} [.failing "broken" "boom",
      .doubleLock] [.doubleLock]
  obtain ⟨_, _, _, _, failed⟩ := detect_isolated loaded nestedConfig (.failing "lost") {} [] []
  refine ⟨p, loaded, alone, ?_, ?_, (failed .doubleLock).mp lost⟩
  · rw [diagnostics, List.length_append, broken, alone]
  · rw [notes, told, quiet, List.append_nil]

end Relock
