import Mathlib.Data.List.Basic
import Relock.Proofs.Reading
import Relock.Proofs.Pattern.Grammar

/-!
# The pattern loader reads the grammar

`Pattern.ofSexp` takes forms apart by index. It is shown equal to `Pattern.decode`, which has no
access that could go wrong: every index is behind a check of the length of its form.
-/

namespace Relock.Pattern

theorem eq_of_tagged {form : Sexp} {tag : String} {parts : List Sexp}
    (h : tagged form = .ok (tag, parts)) :
    form = .list (.symbol tag :: parts) := by
  unfold tagged at h
  split at h
  next head parts =>
    obtain ⟨name, spelled, h⟩ := bind_eq_ok h
    cases h
    cases head with
    | symbol word =>
      cases spelled
      rfl
    | _ => cases spelled
  next => cases h

/-- The tag of a form is looked at first, and a form without one is refused. -/
theorem tagOf_bind {α : Type} {form : Sexp} {load : String → Except Fault α}
    {read : String × List Sexp → Except Fault α}
    (same : ∀ tag parts, form = .list (.symbol tag :: parts) → load tag = read (tag, parts)) :
    (tagOf form >>= load) = (tagged form >>= read) := by
  cases form with
  | list items =>
    cases items with
    | nil => rfl
    | cons head parts =>
      cases head with
      | symbol tag => exact same tag parts rfl
      | _ => rfl
  | _ => rfl

theorem loadMatcher_eq (tag : String) (parts : List Sexp) :
    loadMatcher (.list (.symbol tag :: parts)) =
      matcherOf (.list (.symbol tag :: parts)) parts := by
  rcases parts with _ | ⟨kind, _ | ⟨text, _ | ⟨extra, parts⟩⟩⟩
  · rfl
  · rfl
  · rfl
  · rfl

theorem loadLockClause_eq (read : LockPattern) (clause : Sexp) :
    loadLockClause read clause = lockClause read clause := by
  refine tagOf_bind fun tag parts spelled => ?_
  subst spelled
  split
  next parts same =>
    cases same
    change (loadMatcher (.list (.symbol "match" :: parts)) >>= _) = _
    rw [loadMatcher_eq]
  next index same =>
    cases same
    rfl
  next place same =>
    cases same
    rfl
  next place index same =>
    cases same
    rfl
  next mode same =>
    cases same
    rfl
  next flag same =>
    cases same
    rfl
  next count same =>
    cases same
    rfl
  next texts same =>
    cases same
    rfl
  next matcher resource result arg mode flag count texts =>
    -- The lengths that the loader asks for are those of the shapes that the clause does not have.
    have one (two : (Sexp.symbol tag :: parts).length = 2) : ∃ part, parts = [part] :=
      List.length_eq_one_iff.mp (Nat.succ.inj two)
    rw [Sexp.size_list]
    change (Except.ok (Sexp.symbol tag :: parts).length >>= _) = _
    rw [ok_bind]
    split
    next => exact (matcher parts rfl).elim
    next two =>
      obtain ⟨index, rfl⟩ := one two
      exact (resource index rfl).elim
    next two =>
      obtain ⟨place, rfl⟩ := one two
      exact (result place rfl).elim
    next three =>
      obtain ⟨place, index, rfl⟩ := List.length_eq_two.mp (Nat.succ.inj three)
      exact (arg place index rfl).elim
    next two =>
      obtain ⟨word, rfl⟩ := one two
      exact (mode word rfl).elim
    next two =>
      obtain ⟨word, rfl⟩ := one two
      exact (flag word rfl).elim
    next two =>
      obtain ⟨number, rfl⟩ := one two
      exact (count number rfl).elim
    next => exact (texts parts rfl).elim
    next => rfl

theorem loadLock_eq (tag : String) (parts : List Sexp) :
    loadLock (.list (.symbol tag :: parts)) = lockOf parts := by
  cases parts with
  | nil => rfl
  | cons name clauses =>
    change (textOf name >>= _) = (textOf name >>= _)
    rw [← funext₂ loadLockClause_eq]
    rfl

theorem loadApiClause_eq (kind : ApiKind) (clause : Sexp) :
    loadApiClause kind clause = apiClause kind clause := by
  refine tagOf_bind fun tag parts spelled => ?_
  subst spelled
  split
  next differ =>
    split
    next same =>
      cases same
      exact absurd rfl differ
    next => rfl
  next same =>
    cases Decidable.not_not.mp same
    exact loadMatcher_eq "match" parts

theorem loadApi_eq (tag : String) (parts : List Sexp) :
    loadApi (.list (.symbol tag :: parts)) = apiOf parts := by
  rcases parts with _ | ⟨kind, _ | ⟨clause, clauses⟩⟩
  · rfl
  · rfl
  · unfold apiOf
    rw [← funext₂ loadApiClause_eq]
    rfl

theorem isDefault_eq (base : Sexp) :
    isDefault (.list [.symbol "extends", base]) =
      (symbolName base).map fun word => decide (word = "default") := rfl

theorem loadItem_eq (read : PatternTable × Bool) (item : Sexp) :
    loadItem read item = itemOf read item := by
  obtain ⟨table, extends?⟩ := read
  refine tagOf_bind fun tag parts spelled => ?_
  subst spelled
  split
  next =>
    rcases parts with _ | ⟨base, _ | ⟨other, parts⟩⟩
    · rfl
    · rw [isDefault_eq]
      change _ = (symbolName base >>= _)
      cases symbolName base with
      | error => rfl
      | ok word =>
        change (if decide (word = "default") = true then _ else _) =
          if word = "default" then _ else _
        simp only [decide_eq_true_eq]
    · rfl
  next => rfl
  next =>
    rw [loadLock_eq]
    rfl
  next =>
    rw [loadApi_eq]
    rfl
  next noBase noTexts noLock noApi =>
    split
    next same =>
      cases same
      exact (noBase rfl).elim
    next same =>
      cases same
      exact (noBase rfl).elim
    next same =>
      cases same
      exact (noTexts rfl).elim
    next same =>
      cases same
      exact (noLock rfl).elim
    next same =>
      cases same
      exact (noApi rfl).elim
    next same =>
      cases same
      rfl

/-- No access of the loader goes wrong: it reads what the grammar gives, and refuses what it
refuses. -/
theorem ofSexp_eq (form : Sexp) : ofSexp form = decode form := by
  refine tagOf_bind fun tag parts spelled => ?_
  subst spelled
  split
  next differ =>
    split
    next same =>
      cases same
      exact absurd rfl differ
    next => rfl
  next same =>
    cases Decidable.not_not.mp same
    change (parts.foldlM loadItem ({}, false) >>= _) = (parts.foldlM itemOf ({}, false) >>= _)
    rw [funext₂ loadItem_eq]

theorem decode_of_parse {read : Sexp.Reader} {source text : String} {table : PatternTable}
    (h : PatternTable.parseWith read source text = .ok table) :
    ∃ form, read text = .ok form ∧ decode form = .ok table := by
  unfold PatternTable.parseWith at h
  cases given : read text with
  | error reason =>
    rw [given] at h
    cases h
  | ok form =>
    rw [given] at h
    change (ofSexp form).mapError _ = _ at h
    rw [ofSexp_eq] at h
    cases made : decode form with
    | error fault =>
      rw [made] at h
      cases h
    | ok made' =>
      rw [made] at h
      cases h
      exact ⟨form, rfl, made⟩

end Relock.Pattern
