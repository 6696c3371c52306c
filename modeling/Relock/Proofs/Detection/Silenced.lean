import Relock.Proofs.Detection.Run

/-!
# What suppressions do to a run

Specifications are merged into one table, by glob; what the table silences is what one of the
specifications silences on its own. `Suppressions.Silenced` says of a specification what that is,
from its text.

Suppressions come last in every checker, and nothing that a later checker reads depends on them. So
a run with suppressions is the run without them, less the diagnostics that are silenced.
-/

namespace Relock

/-! ## Specifications one by one -/

/-- A changed entry has a part in a test as before the change, or as the change has it. -/
theorem Keyed.any_update {α β : Type} [DecidableEq α] {fresh : β} {change : β → β}
    {test : α × β → Bool} {key : α} {extra : Bool} (blank : test (key, fresh) = false)
    (changed : ∀ entry, test (key, change entry) = (test (key, entry) || extra)) (row : Keyed α β) :
    (row.update key fresh change).any test = (row.any test || extra) := by
  induction row with
  | nil =>
    show (test (key, change fresh) || false) = (false || extra)
    rw [changed, blank, Bool.or_false]
  | cons first row ih =>
    obtain ⟨k, entry⟩ := first
    unfold Keyed.update at ih ⊢
    rw [get?_cons, Keyed.set]
    by_cases here : k = key
    · subst here
      simp only [if_true, Option.getD_some, List.any_cons, changed, Bool.or_assoc,
        Bool.or_comm extra]
    · simp only [if_neg here, List.any_cons, ih, Bool.or_assoc]

namespace Suppressions

/-- An id is the id of a diagnostic, or stands for all of them. -/
def About (id : String) (d : Diagnostic) : Prop := id = d.errorId ∨ id = "*"

/-- A specification silences a diagnostic: by its id alone, by its id in a file, or by its id in a
function. The first at sign divides a specification, else the first colon. -/
inductive Silenced (d : Diagnostic) (spec : String) : Prop where
  | everywhere (unmarked : '@' ∉ spec.toList ∧ ':' ∉ spec.toList) (about : About spec d)
  | inFile (id glob : String) (written : spec = id ++ ":" ++ glob)
      (unmarked : '@' ∉ spec.toList ∧ ':' ∉ id.toList) (about : About id d)
      (taken : takesFile glob d.point.file = true)
  | inFunction (id glob : String) (written : spec = id ++ "@" ++ glob) (unmarked : '@' ∉ id.toList)
      (about : About id d) (taken : ∃ name ∈ functionsOf d, globAccepts glob name = true)

theorem covers_singleton {id : String} {d : Diagnostic} : covers [id] d.errorId = true ↔
    About id d := by
  simp only [covers, List.mem_singleton, Bool.or_eq_true, decide_eq_true_eq, About]
  exact or_congr eq_comm eq_comm

theorem covers_addId (id : String) (ids : List String) (other : String) :
    covers (addId id ids) other = (covers ids other || covers [id] other) := by
  have mem (x : String) : x ∈ addId id ids ↔ x ∈ ids ∨ x = id := by
    unfold addId
    split
    next old => exact ⟨.inl, fun h => h.elim (fun h => h) fun same => same ▸ old⟩
    next => rw [List.mem_append, List.mem_singleton]
  rw [Bool.eq_iff_iff]
  simp only [covers, mem, List.mem_singleton, Bool.or_eq_true, decide_eq_true_eq]
  exact or_or_or_comm

/-- Adding an id under a glob silences what it did, and what the id silences where the glob
applies. -/
theorem any_addId (row : Keyed String (List String)) (id glob other : String)
    (applies : String → Bool) :
    (row.update glob [] (addId id)).any
        (fun (pattern, ids) => covers ids other && applies pattern) =
      (row.any (fun (pattern, ids) => covers ids other && applies pattern) ||
        covers [id] other && applies glob) := by
  refine Keyed.any_update rfl (fun ids => ?_) row
  show (covers (addId id ids) other && applies glob) =
    (covers ids other && applies glob || covers [id] other && applies glob)
  rw [covers_addId, Bool.and_or_distrib_right]

section Add

variable (s : Suppressions) (id glob : String) (d : Diagnostic)

theorem silences_addEverywhere :
    (s.addEverywhere id).silences d = (s.silences d || covers [id] d.errorId) := by
  simp only [silences, addEverywhere, covers_addId, Bool.or_assoc,
    Bool.or_comm (covers [id] d.errorId)]

theorem silences_addFile : (s.addFile id glob).silences d =
    (s.silences d || covers [id] d.errorId && takesFile glob d.point.file) := by
  simp only [silences, addFile, any_addId _ id glob d.errorId fun pattern =>
    takesFile pattern d.point.file]
  simp only [Bool.or_assoc, Bool.or_comm (covers [id] d.errorId && _)]

theorem silences_addFunction : (s.addFunction id glob).silences d =
    (s.silences d || covers [id] d.errorId && (functionsOf d).any (globAccepts glob)) := by
  simp only [silences, addFunction, any_addId _ id glob d.errorId fun pattern =>
    (functionsOf d).any (globAccepts pattern)]
  simp only [Bool.or_assoc]

end Add

theorem silences_empty (d : Diagnostic) : ({} : Suppressions).silences d = false := rfl

theorem silences_addSpec (s : Suppressions) (spec : String) (d : Diagnostic) :
    (s.addSpec spec).silences d = (s.silences d || (ofSpecs [spec]).silences d) := by
  show (s.addSpec spec).silences d = (s.silences d || (addSpec {} spec).silences d)
  unfold addSpec
  cases splitAt? '@' spec with
  | some parts => simp only [silences_addFunction, silences_empty, Bool.false_or]
  | none =>
    cases splitAt? ':' spec with
    | some parts => simp only [silences_addFile, silences_empty, Bool.false_or]
    | none => simp only [silences_addEverywhere, silences_empty, Bool.false_or]

/-- What specifications silence is what one of them silences when it is alone. -/
theorem silences_ofSpecs (specs : List String) (d : Diagnostic) :
    (ofSpecs specs).silences d = specs.any fun spec => (ofSpecs [spec]).silences d := by
  suffices ∀ s : Suppressions, (specs.foldl addSpec s).silences d =
      (s.silences d || specs.any fun spec => (ofSpecs [spec]).silences d) from
    (this {}).trans (by rw [silences_empty, Bool.false_or])
  intro s
  induction specs generalizing s with
  | nil => rw [List.any_nil, Bool.or_false]; rfl
  | cons spec specs ih => rw [List.foldl_cons, ih, silences_addSpec, List.any_cons, Bool.or_assoc]

/-! ## The text of a specification -/

theorem splitAt?_eq_none {mark : Char} {text : String} : splitAt? mark text = none ↔
    mark ∉ text.toList := by
  unfold splitAt?
  by_cases h : text.toList.contains mark
  · simp only [h, if_true, reduceCtorEq, false_iff, Decidable.not_not]
    exact List.contains_iff_mem.mp h
  · simp only [h, Bool.false_eq_true, if_false, true_iff]
    exact fun mem => h (List.contains_iff_mem.mpr mem)

/-- A text is divided at the first place where the mark stands. -/
theorem splitAt?_append {mark : Char} {id glob : String} (unmarked : mark ∉ id.toList) :
    splitAt? mark (id ++ mark.toString ++ glob) = some (id, glob) := by
  have chars : (id ++ mark.toString ++ glob).toList = id.toList ++ mark :: glob.toList := by
    simp [String.toList_append]
  have before : ∀ c ∈ id.toList, decide (c ≠ mark) = true := by
    intro c mem
    exact decide_eq_true fun same => unmarked (same ▸ mem)
  have here : (id.toList ++ mark :: glob.toList).contains mark = true :=
    List.contains_iff_mem.mpr (List.mem_append_right _ List.mem_cons_self)
  simp only [splitAt?, chars, here, if_true, List.takeWhile_append_of_pos before,
    List.dropWhile_append_of_pos before]
  simp

theorem splitAt?_eq_some {mark : Char} {text id glob : String} :
    splitAt? mark text = some (id, glob) ↔ text = id ++ mark.toString ++ glob ∧
    mark ∉ id.toList := by
  refine ⟨fun h => ?_, fun ⟨written, unmarked⟩ => written ▸ splitAt?_append unmarked⟩
  have marked : mark ∈ text.toList := by
    refine Decidable.byContradiction fun absent => ?_
    rw [splitAt?_eq_none.mpr absent] at h
    cases h
  obtain ⟨front, rest, chars, first⟩ := List.eq_append_cons_of_mem marked
  have unmarked : mark ∉ (String.ofList front).toList := by rwa [String.toList_ofList]
  have written : text = String.ofList front ++ mark.toString ++ String.ofList rest := by
    refine String.toList_injective ?_
    simp [String.toList_append, chars]
  rw [written, splitAt?_append unmarked] at h
  cases h
  exact ⟨written, unmarked⟩

/-- What a specification silences when it is alone. -/
theorem silences_iff {spec : String} {d : Diagnostic} : (ofSpecs [spec]).silences d = true ↔
    Silenced d spec := by
  show (addSpec {} spec).silences d = true ↔ _
  unfold addSpec
  cases atSign : splitAt? '@' spec with
  | some parts =>
    obtain ⟨id, glob⟩ := parts
    obtain ⟨written, unmarked⟩ := splitAt?_eq_some.mp atSign
    simp only [silences_addFunction, silences_empty, Bool.false_or, Bool.and_eq_true,
      covers_singleton, List.any_eq_true]
    have marked : '@' ∈ spec.toList := by rw [written]; simp [String.toList_append]
    refine ⟨fun ⟨about, taken⟩ => .inFunction id glob written unmarked about taken, fun h => ?_⟩
    cases h with
    | everywhere plain _ => exact absurd marked plain.1
    | inFile _ _ _ plain _ _ => exact absurd marked plain.1
    | inFunction id' glob' written' unmarked' about taken =>
      obtain ⟨rfl, rfl⟩ :=
        Prod.mk.inj (Option.some.inj
          (atSign.symm.trans (splitAt?_eq_some.mpr ⟨written', unmarked'⟩)))
      exact ⟨about, taken⟩
  | none =>
    have noAt := splitAt?_eq_none.mp atSign
    have notFunction {id glob : String} (written : spec = id ++ "@" ++ glob) : False :=
      noAt (by rw [written]; simp [String.toList_append])
    cases colon : splitAt? ':' spec with
    | some parts =>
      obtain ⟨id, glob⟩ := parts
      obtain ⟨written, unmarked⟩ := splitAt?_eq_some.mp colon
      simp only [silences_addFile, silences_empty, Bool.false_or, Bool.and_eq_true,
        covers_singleton]
      have marked : ':' ∈ spec.toList := by rw [written]; simp [String.toList_append]
      refine ⟨fun ⟨about, taken⟩ => .inFile id glob written ⟨noAt, unmarked⟩ about taken,
        fun h => ?_⟩
      cases h with
      | everywhere plain _ => exact absurd marked plain.2
      | inFile id' glob' written' unmarked' about taken =>
        obtain ⟨rfl, rfl⟩ :=
          Prod.mk.inj (Option.some.inj
            (colon.symm.trans (splitAt?_eq_some.mpr ⟨written', unmarked'.2⟩)))
        exact ⟨about, taken⟩
      | inFunction _ _ written _ _ _ => exact (notFunction written).elim
    | none =>
      have noColon := splitAt?_eq_none.mp colon
      simp only [silences_addEverywhere, silences_empty, Bool.false_or, covers_singleton]
      refine ⟨fun about => .everywhere ⟨noAt, noColon⟩ about, fun h => ?_⟩
      cases h with
      | everywhere _ about => exact about
      | inFile id glob written _ _ _ =>
        exact absurd (by rw [written]; simp [String.toList_append]) noColon
      | inFunction _ _ written _ _ _ => exact (notFunction written).elim

/-! ## Keeping diagnostics -/

theorem keep_empty (ds : List Diagnostic) : ({} : Suppressions).keep ds = ds :=
  List.filter_eq_self.mpr fun _ _ => rfl

theorem keep_append (s : Suppressions) (ds more : List Diagnostic) :
    s.keep (ds ++ more) = s.keep ds ++ s.keep more :=
  List.filter_append ..

theorem keep_keep (s : Suppressions) (ds : List Diagnostic) : s.keep (s.keep ds) = s.keep ds := by
  simp only [keep, List.filter_filter, Bool.and_self]

/-- A diagnostic is kept if no specification silences it. -/
theorem keep_ofSpecs (specs : List String) (ds : List Diagnostic) :
    (ofSpecs specs).keep ds =
      ds.filter fun d => specs.all fun spec => !(ofSpecs [spec]).silences d := by
  refine List.filter_congr fun d _ => ?_
  rw [silences_ofSpecs, List.not_any_eq_all_not]

/-- Only which specifications there are matters. -/
theorem silences_congr {specs others : List String} (same : ∀ spec, spec ∈ others ↔ spec ∈ specs)
    (d : Diagnostic) :
    (ofSpecs others).silences d = (ofSpecs specs).silences d := by
  rw [silences_ofSpecs, silences_ofSpecs, Bool.eq_iff_iff, List.any_eq_true, List.any_eq_true]
  exact exists_congr fun spec => and_congr_left fun _ => same spec

/-- More specifications silence more. -/
theorem keep_sublist {specs more : List String} (sub : specs ⊆ more) (ds : List Diagnostic) :
    ((ofSpecs more).keep ds).Sublist ((ofSpecs specs).keep ds) := by
  refine List.monotone_filter_right ds fun d kept => ?_
  rw [silences_ofSpecs, List.not_any_eq_all_not, List.all_eq_true] at kept ⊢
  exact fun spec mem => kept spec (sub mem)

end Suppressions

/-! ## Runs -/

/-- A run without the diagnostics that are silenced. -/
def Detection.silencedBy (s : Suppressions) (d : Detection) : Detection :=
  { d with diagnostics := s.keep d.diagnostics }

namespace Program

variable (p : Program) (config : Config) (oracle : Oracle)

/-- A checker silences its own diagnostics, and reads none of those before it. -/
theorem runChecker_silencedBy (s : Suppressions) (d : Detection) (checker : Checker) :
    p.runChecker config oracle s (d.silencedBy s) checker =
      (p.runChecker config oracle {} d checker).silencedBy s := by
  cases checker with
  | standalone name diagnose =>
    simp only [runChecker, Detection.silencedBy, Suppressions.keep_empty, Suppressions.keep_append]
  | failing name reason recorded => rfl
  | doubleLock =>
    simp only [runChecker, Detection.silencedBy]
    cases (p.evidence config oracle d.memo).failure with
    | some failure => rfl
    | none => simp only [Detection.reports, Suppressions.keep_empty, Suppressions.keep_append]

theorem detect_silencedBy (s : Suppressions) (checkers : List Checker) :
    p.detect config oracle s checkers = (p.detect config oracle {} checkers).silencedBy s := by
  suffices ∀ d : Detection, checkers.foldl (p.runChecker config oracle s) (d.silencedBy s) =
      (checkers.foldl (p.runChecker config oracle {}) d).silencedBy s from this {}
  intro d
  induction checkers generalizing d with
  | nil => rfl
  | cons checker checkers ih => rw [List.foldl_cons, runChecker_silencedBy, ih, List.foldl_cons]

end Program

/-- Suppressions filter the diagnostics of a run and do nothing else. The diagnostics that are left
are those of the run without suppressions that no specification silences on its own, in their order;
which those are, the texts of the specifications say. So neither the order nor the repetition of
specifications matters, further ones only take diagnostics away, and what is left stays when it is
filtered again. -/
theorem detect_filtered (p : Program) (config : Config) (oracle : Oracle) (checkers : List Checker)
    (specs : List String) :
    let plain := p.detect config oracle {} checkers
    let run (specs : List String) := p.detect config oracle (.ofSpecs specs) checkers
    let left := plain.diagnostics.filter fun d => specs.all fun spec =>
      !(Suppressions.ofSpecs [spec]).silences d
    run specs = { plain with diagnostics := left } ∧
    (∀ spec d, (Suppressions.ofSpecs [spec]).silences d = true ↔ Suppressions.Silenced d spec) ∧
    (∀ others, (∀ spec, spec ∈ others ↔ spec ∈ specs) → run others = run specs) ∧
    (∀ more, specs ⊆ more → (run more).diagnostics.Sublist (run specs).diagnostics) ∧
    (Suppressions.ofSpecs specs).keep (run specs).diagnostics = (run specs).diagnostics := by
  intro plain run left
  have silenced (specs : List String) : run specs = plain.silencedBy (.ofSpecs specs) :=
    p.detect_silencedBy config oracle (.ofSpecs specs) checkers
  refine ⟨?_, fun _ _ => Suppressions.silences_iff, fun others same => ?_, fun more sub => ?_, ?_⟩
  · rw [silenced, Detection.silencedBy, Suppressions.keep_ofSpecs]
  · rw [silenced, silenced]
    simp only [Detection.silencedBy, Suppressions.keep, Suppressions.silences_congr same]
  · rw [silenced, silenced]
    exact Suppressions.keep_sublist sub plain.diagnostics
  · rw [silenced]
    exact Suppressions.keep_keep _ _

set_option maxRecDepth 4000 in
/-- A file that no site stands in silences nothing; the caller does, alone or with it. -/
theorem detect_filtered_wrapped : ∃ p, Program.load "wrapped" wrappedText = .ok p ∧
    (p.detect nestedConfig .structural {} [.doubleLock]).diagnostics.length = 1 ∧
    (p.detect nestedConfig .structural (.ofSpecs ["doubleLock:lib.rs"])
      [.doubleLock]).diagnostics.length = 1 ∧
    (p.detect nestedConfig .structural (.ofSpecs ["doubleLock:lib.rs", "*@ma*"])
      [.doubleLock]).diagnostics.length = 0 ∧
    p.detect nestedConfig .structural (.ofSpecs ["*@ma*", "doubleLock:lib.rs", "*@ma*"])
    [.doubleLock] =
      p.detect nestedConfig .structural (.ofSpecs ["doubleLock:lib.rs", "*@ma*"])
      [.doubleLock] := by
  have twice (spec : String) : spec ∈ ["*@ma*", "doubleLock:lib.rs", "*@ma*"] ↔
      spec ∈ ["doubleLock:lib.rs", "*@ma*"] := by
    simp only [List.mem_cons, List.not_mem_nil, or_false]
    exact ⟨fun h => h.elim .inr id, .inr⟩
  obtain ⟨p, loaded, checked⟩ : ∃ p, Program.load "wrapped" wrappedText = .ok p ∧
      decide ((p.detect nestedConfig .structural {} [.doubleLock]).diagnostics.length = 1 ∧
        (p.detect nestedConfig .structural (.ofSpecs ["doubleLock:lib.rs"])
          [.doubleLock]).diagnostics.length = 1 ∧
        (p.detect nestedConfig .structural (.ofSpecs ["doubleLock:lib.rs", "*@ma*"])
          [.doubleLock]).diagnostics.length = 0) = true :=
    Program.exists_of_load rfl (by decide +kernel)
  obtain ⟨plain, elsewhere, both⟩ := of_decide_eq_true checked
  obtain ⟨_, _, same, _⟩ :=
    detect_filtered p nestedConfig .structural [.doubleLock] ["doubleLock:lib.rs", "*@ma*"]
  exact ⟨p, loaded, plain, elsewhere, both, same _ twice⟩

end Relock
