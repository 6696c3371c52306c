import Relock.Proofs.Detection.Silenced

/-!
# Specifications as texts

A specification spells an id, and where it is to be silenced, in one text. An id that holds neither
mark is read back from each of the three spellings, and so is a function glob, whatever it holds:
the first at sign divides. A file glob is read back just if it holds no at sign. With one, the text
reads as a function glob after a longer id, and the files that were meant are not silenced.
-/

namespace Relock
namespace Suppressions

variable {id glob : String}

/-- Two tables silence the same diagnostics. -/
def Alike (s t : Suppressions) : Prop := ∀ d, s.silences d = t.silences d

/-! ## What is added -/

theorem addSpec_unmarked (noAt : '@' ∉ id.toList) (noColon : ':' ∉ id.toList) (s : Suppressions) :
    s.addSpec id = s.addEverywhere id := by
  rw [addSpec, splitAt?_eq_none.mpr noAt, splitAt?_eq_none.mpr noColon]

theorem addSpec_at (noAt : '@' ∉ id.toList) (s : Suppressions) :
    s.addSpec (id ++ "@" ++ glob) = s.addFunction id glob := by
  have divided : splitAt? '@' (id ++ "@" ++ glob) = some (id, glob) := splitAt?_append noAt
  rw [addSpec, divided]

theorem addSpec_colon (noAt : '@' ∉ (id ++ ":" ++ glob).toList) (noColon : ':' ∉ id.toList)
    (s : Suppressions) :
    s.addSpec (id ++ ":" ++ glob) = s.addFile id glob := by
  have divided : splitAt? ':' (id ++ ":" ++ glob) = some (id, glob) := splitAt?_append noColon
  rw [addSpec, splitAt?_eq_none.mpr noAt, divided]

/-! ## File globs with an at sign -/

/-- A finding in a file, in no function. -/
def findingIn (id file : String) : Diagnostic :=
  { errorId := id, message := "", severity := .error, point := { file := file } }

/-- A path is taken by itself as a pattern. -/
theorem silences_addFile_self (s : Suppressions) (named : glob.isEmpty = false) :
    (s.addFile id glob).silences (findingIn id glob) = true := by
  have about : covers [id] (findingIn id glob).errorId = true := covers_singleton.mpr (.inl rfl)
  have taken : takesFile glob (findingIn id glob).point.file = true := by
    simp only [takesFile, findingIn, named, decide_true, Bool.true_or, Bool.not_false,
      Bool.and_self]
  rw [silences_addFile, about, taken, Bool.and_self, Bool.or_true]

/-- A specification with an at sign says nothing about a finding in no function. -/
theorem silences_addSpec_at {spec : String} (marked : '@' ∈ spec.toList) (s : Suppressions)
    (file : String) :
    (s.addSpec spec).silences (findingIn id file) = s.silences (findingIn id file) := by
  cases divided : splitAt? '@' spec with
  | none => exact absurd marked (splitAt?_eq_none.mp divided)
  | some parts =>
    have nowhere : functionsOf (findingIn id file) = [] := rfl
    rw [addSpec, divided, silences_addFunction, nowhere, List.any_nil, Bool.and_false,
      Bool.or_false]

theorem alike_addFile_iff (noAt : '@' ∉ id.toList) (noColon : ':' ∉ id.toList) :
    (∀ s : Suppressions, (s.addSpec (id ++ ":" ++ glob)).Alike (s.addFile id glob)) ↔
      '@' ∉ glob.toList := by
  have whole : '@' ∈ (id ++ ":" ++ glob).toList ↔ '@' ∈ glob.toList := by
    simp [String.toList_append, noAt]
  constructor
  · intro alike marked
    have named : glob.isEmpty = false := by
      refine Bool.eq_false_iff.mpr fun empty => ?_
      rw [String.isEmpty_iff.mp empty] at marked
      exact absurd marked (by decide)
    have silenced := (alike {} (findingIn id glob)).trans (silences_addFile_self {} named)
    rw [silences_addSpec_at (whole.mpr marked), silences_empty] at silenced
    cases silenced
  · intro unmarked s d
    rw [addSpec_colon (mt whole.mp unmarked) noColon]

/-! ## The three spellings -/

/-- An id alone, an id before an at sign and a function glob, and an id before a colon and a file
glob add what they spell; the last just if the glob holds no at sign. -/
theorem addSpec_spellings (unmarked : '@' ∉ id.toList ∧ ':' ∉ id.toList) :
    (∀ s : Suppressions, (s.addSpec id).Alike (s.addEverywhere id)) ∧
    (∀ (glob : String) (s : Suppressions),
      (s.addSpec (id ++ "@" ++ glob)).Alike (s.addFunction id glob)) ∧
    ∀ glob : String, (∀ s : Suppressions,
      (s.addSpec (id ++ ":" ++ glob)).Alike (s.addFile id glob)) ↔ '@' ∉ glob.toList := by
  obtain ⟨noAt, noColon⟩ := unmarked
  refine ⟨fun s d => ?_, fun glob s d => ?_, fun glob => alike_addFile_iff noAt noColon⟩
  · rw [addSpec_unmarked noAt noColon]
  · rw [addSpec_at noAt]

/-- Both marks may stand in a function glob, and a colon in a file glob. -/
theorem addSpec_spellings_doubleLock :
    (({} : Suppressions).addSpec ("doubleLock" ++ "@" ++ "*::a@b:*")).Alike
    (({} : Suppressions).addFunction "doubleLock" "*::a@b:*") ∧
    (({} : Suppressions).addSpec ("doubleLock" ++ ":" ++ "c:/src/*")).Alike
    (({} : Suppressions).addFile "doubleLock" "c:/src/*") ∧
    ¬ ∀ s : Suppressions, (s.addSpec ("doubleLock" ++ ":" ++ "vendor/@scope/*")).Alike
    (s.addFile "doubleLock" "vendor/@scope/*") := by
  obtain ⟨_, function, file⟩ :=
    addSpec_spellings (show '@' ∉ "doubleLock".toList ∧ ':' ∉ "doubleLock".toList by decide)
  refine ⟨function "*::a@b:*" {}, (file "c:/src/*").mpr (by decide) {}, fun alike => ?_⟩
  exact absurd ((file "vendor/@scope/*").mp alike) (by decide)

/-- A file glob with an at sign does not silence the file that it takes. -/
theorem addSpec_misses_scoped :
    (({} : Suppressions).addFile "doubleLock" "vendor/@scope/*").silences
    (findingIn "doubleLock" "vendor/@scope/a.rs") = true ∧
    (({} : Suppressions).addSpec ("doubleLock" ++ ":" ++ "vendor/@scope/*")).silences
      (findingIn "doubleLock" "vendor/@scope/a.rs") = false := by
  decide +kernel

end Suppressions
end Relock
