import Mathlib.Data.List.Basic
import Relock.Proofs.Pattern.Loader
import Relock.Proofs.Reading
import Relock.Proofs.Source.Decoder

/-!
# What a fault says of a pattern table

A table is refused for what it says. `Pattern.Misread form fault` says of a form that it has a
fault, or that a form in it has: a word is not one of the words that can stand there, a clause has
none of the shapes that clauses have, or a lock has nothing to match. `Pattern.Refused` says it of a
whole table. Errors carry the name of the table's source, whatever the fault is.
-/

namespace Relock.Pattern

/-- Whether a form has one of the shapes of the clauses of a lock. -/
def isLockClause : Sexp → Bool
  | .list (.symbol "match" :: _) => true
  | .list [.symbol "resource", _] => true
  | .list [.symbol "guard", .symbol "result"] => true
  | .list [.symbol "guard", .symbol "arg", _] => true
  | .list [.symbol "mode", _] => true
  | .list [.symbol "wrapped", _] => true
  | .list [.symbol "min-args", _] => true
  | .list (.symbol "exclude" :: _) => true
  | _ => false

/-- A fault that a form has, or a form that stands in it. -/
inductive Misread : Sexp → Fault → Prop
  | symbol {got : Sexp} (other : ∀ name, got ≠ .symbol name) : Misread got (.notSymbol got)
  | text {got : Sexp} (other : got.name? = none) : Misread got (.notString got)
  | integer {got : Sexp} (other : ∀ n, got ≠ .int n) : Misread got (.notInteger got)
  | negative {n : Int} (less : n < 0) : Misread (.int n) (.negative n)
  | form {got : Sexp} (other : ∀ head parts, got ≠ .list (head :: parts)) :
      Misread got (.notForm got)
  | flag {word : String} (yes : word ∉ ["t", "true", "yes"]) (no : word ∉ ["nil", "false", "no"]) :
      Misread (.symbol word) (.notFlag word)
  | matcher {parts : List Sexp} (other : parts.length ≠ 2) :
      Misread (.list (.symbol "match" :: parts))
      (.malformedMatch (.list (.symbol "match" :: parts)))
  | unknownMatch {word : String} (other : MatchKind.ofName? word = none) :
      Misread (.symbol word) (.unknownMatch (.symbol word))
  | unnamedLock : Misread (.list [.symbol "lock"]) .unnamedLock
  | unmatchedLock {name : Sexp} {lock : String} {clauses : List Sexp}
      (named : name.name? = some lock) (none : ∀ clause ∈ clauses, clause.head? ≠ some "match") :
      Misread (.list (.symbol "lock" :: name :: clauses)) (.unmatchedLock lock)
  | lockClause {name clause : Sexp} {lock : String} {clauses : List Sexp}
      (named : name.name? = some lock) (mem : clause ∈ clauses)
      (other : isLockClause clause = false) :
      Misread (.list (.symbol "lock" :: name :: clauses)) (.malformedLock lock clause)
  | unknownMode {name : Sexp} {lock word : String} {clauses : List Sexp}
      (named : name.name? = some lock) (mem : .list [.symbol "mode", .symbol word] ∈ clauses)
      (other : ShareMode.ofName? word = none) :
      Misread (.list (.symbol "lock" :: name :: clauses)) (.unknownMode lock (.symbol word))
  | api {parts : List Sexp} (short : parts.length < 2) :
      Misread (.list (.symbol "api" :: parts)) .malformedApi
  | unknownApi {word : String} (other : ApiKind.ofName? word = none) :
      Misread (.symbol word) (.unknownApi (.symbol word))
  | apiClause {kind : ApiKind} {clause : Sexp} {clauses : List Sexp} (mem : clause ∈ clauses)
      (other : clause.head? ≠ some "match") :
      Misread (.list (.symbol "api" :: .symbol kind.name :: clauses)) (.malformedClause kind clause)
  | inside {items : List Sexp} {item : Sexp} {fault : Fault} (mem : item ∈ items)
      (h : Misread item fault) :
      Misread (.list items) fault

/-- The faults for which a table is refused. -/
inductive Refused : Except String Sexp → Fault → Prop
  | unreadable {reason : String} : Refused (.error reason) (.unreadable reason)
  | notPatterns {form : Sexp} (other : form.head? ≠ some "patterns") :
      Refused (.ok form) .notPatterns
  | unknownBase {items parts : List Sexp} (mem : .list (.symbol "extends" :: parts) ∈ items)
      (other : parts ≠ [.symbol "default"]) :
      Refused (.ok (.list (.symbol "patterns" :: items))) .unknownBase
  | unknownForm {items : List Sexp} {item : Sexp} {tag : String} (mem : item ∈ items)
      (tagged : item.head? = some tag) (other : tag ∉ ["extends", "exclude", "lock", "api"]) :
      Refused (.ok (.list (.symbol "patterns" :: items))) (.unknownForm tag)
  | misread {form : Sexp} {fault : Fault} (h : Misread form fault) : Refused (.ok form) fault

theorem Misread.ne_unreadable {form : Sexp} {fault : Fault} (h : Misread form fault)
    (reason : String) :
    fault ≠ .unreadable reason := by
  induction h with
  | inside _ _ ih => exact ih
  | _ => exact Fault.noConfusion

theorem Misread.isTyped {form : Sexp} {fault : Fault} (h : Misread form fault) :
    fault.isTyped = true := by
  induction h with
  | inside _ _ ih => exact ih
  | _ => rfl

theorem Refused.unread {form : Except String Sexp} {reason : String}
    (h : Refused form (.unreadable reason)) :
    form = .error reason := by
  cases h with
  | unreadable => rfl
  | misread h => exact absurd rfl (h.ne_unreadable reason)

/-- What a table has wrong is never a crash of its reader. -/
theorem Refused.isTyped {form : Except String Sexp} {fault : Fault} (h : Refused form fault) :
    fault.isTyped = true := by
  cases h with
  | misread h => exact h.isTyped
  | _ => rfl

/-! ## Words -/

theorem Misread.among {forms : List Sexp} (fault : Fault) (h : ∃ form ∈ forms, Misread form fault)
    {items : List Sexp} (sub : ∀ form ∈ forms, form ∈ items) : Misread (.list items) fault := by
  obtain ⟨form, mem, h⟩ := h
  exact .inside (sub form mem) h

theorem fails_symbolName (form : Sexp) : FailsOnly (Misread form) (symbolName form) := by
  unfold symbolName
  split
  next => exact .ok _
  next other => exact .error (.symbol other)

theorem eq_of_symbolName {form : Sexp} {name : String} (h : symbolName form = .ok name) :
    form = .symbol name := by
  unfold symbolName at h
  split at h
  next =>
    cases h
    rfl
  next => cases h

theorem fails_textOf (form : Sexp) : FailsOnly (Misread form) (textOf form) := by
  unfold textOf
  split
  next => exact .ok _
  next other => exact .error (.text other)

theorem name?_of_textOf {form : Sexp} {text : String} (h : textOf form = .ok text) :
    form.name? = some text := by
  unfold textOf at h
  split at h
  next found =>
    cases h
    exact found
  next => cases h

theorem fails_texts (forms : List Sexp) :
    FailsOnly (fun fault => ∃ form ∈ forms, Misread form fault) (forms.mapM textOf) :=
  .mapM fun form mem => (fails_textOf form).mono fun _ h => ⟨form, mem, h⟩

theorem fails_indexOf (form : Sexp) : FailsOnly (Misread form) (indexOf form) := by
  unfold indexOf
  split
  next n =>
    split
    next less => exact .error (.negative less)
    next => exact .ok _
  next other => exact .error (.integer other)

theorem fails_tagged (form : Sexp) : FailsOnly (Misread form) (tagged form) := by
  unfold tagged
  split
  next head parts =>
    exact ((fails_symbolName head).mono fun _ h => .inside List.mem_cons_self h).bind fun _ _ =>
      .ok _
  next other => exact .error (.form other)

theorem fails_flagOf (form : Sexp) : FailsOnly (Misread form) (flagOf form) := by
  refine (fails_symbolName form).bind fun word named => ?_
  cases eq_of_symbolName named
  split
  next => exact .ok _
  next notTrue =>
    split
    next => exact .ok _
    next notFalse => exact .error (.flag notTrue notFalse)

/-! ## Clauses -/

theorem fails_matcherOf {clause : Sexp} {parts : List Sexp}
    (whole : clause = .list (.symbol "match" :: parts)) :
    FailsOnly (Misread clause) (matcherOf clause parts) := by
  unfold matcherOf
  split
  next kind text =>
    have within {form : Sexp} (mem : form ∈ [kind, text]) (fault : Fault) (h : Misread form fault) :
        Misread clause fault := by
      rw [whole]
      exact .inside (List.mem_cons_of_mem _ mem) h
    refine ((fails_symbolName kind).mono (within (by simp))).bind fun word named => ?_
    split
    next => exact ((fails_textOf text).mono (within (by simp))).bind fun _ _ => .ok _
    next unknown =>
      cases eq_of_symbolName named
      exact .error (within List.mem_cons_self _ (.unknownMatch unknown))
  next other =>
    rw [whole]
    refine .error (.matcher fun two => ?_)
    obtain ⟨kind, text, pair⟩ := List.length_eq_two.mp two
    exact other kind text pair

/-- The faults of one clause of a lock. -/
inductive ClauseRefused (lock : String) (clause : Sexp) : Fault → Prop
  | misread {fault : Fault} (h : Misread clause fault) : ClauseRefused lock clause fault
  | malformed (other : isLockClause clause = false) :
      ClauseRefused lock clause (.malformedLock lock clause)
  | unknownMode {word : String} (whole : clause = .list [.symbol "mode", .symbol word])
      (other : ShareMode.ofName? word = none) :
      ClauseRefused lock clause (.unknownMode lock (.symbol word))

theorem refused_of_lockClause (read : LockPattern) (clause : Sexp) :
    FailsOnly (ClauseRefused read.name clause) (lockClause read clause) := by
  have misread (fault : Fault) (h : Misread clause fault) : ClauseRefused read.name clause fault :=
    .misread h
  refine ((fails_tagged clause).mono misread).bind fun parsed tagged => ?_
  obtain ⟨tag, parts⟩ := parsed
  cases eq_of_tagged tagged
  have part {form : Sexp} (mem : form ∈ parts) (fault : Fault) (h : Misread form fault) :
      ClauseRefused read.name (.list (.symbol tag :: parts)) fault :=
    misread fault (.inside (List.mem_cons_of_mem _ mem) h)
  split
  next same =>
    cases same
    exact ((fails_matcherOf rfl).mono misread).bind fun _ _ => .ok _
  next index same =>
    cases same
    exact ((fails_indexOf index).mono (part (by simp))).bind fun _ _ => .ok _
  next place same =>
    cases same
    refine ((fails_symbolName place).mono (part (by simp))).bind fun word named => ?_
    split
    next => exact .ok _
    next other =>
      refine .error (.malformed ?_)
      rw [eq_of_symbolName named]
      simp [isLockClause, other]
  next place index same =>
    cases same
    refine ((fails_symbolName place).mono (part (by simp))).bind fun word named => ?_
    split
    next => exact ((fails_indexOf index).mono (part (by simp))).bind fun _ _ => .ok _
    next other =>
      refine .error (.malformed ?_)
      rw [eq_of_symbolName named]
      simp [isLockClause, other]
  next mode same =>
    cases same
    refine ((fails_symbolName mode).mono (part (by simp))).bind fun word named => ?_
    split
    next => exact .ok _
    next unknown =>
      cases eq_of_symbolName named
      exact .error (.unknownMode rfl unknown)
  next flag same =>
    cases same
    exact ((fails_flagOf flag).mono (part (by simp))).bind fun _ _ => .ok _
  next count same =>
    cases same
    exact ((fails_indexOf count).mono (part (by simp))).bind fun _ _ => .ok _
  next same =>
    cases same
    refine ((fails_texts parts).mono fun fault h => ?_).bind fun _ _ => .ok _
    exact misread fault (Misread.among fault h fun _ => List.mem_cons_of_mem _)
  next noMatch noResource noResult noArg noMode noFlag noCount noTexts =>
    refine .error (.malformed ?_)
    unfold isLockClause
    split
    next same => cases same; exact (noMatch _ rfl).elim
    next same => cases same; exact (noResource _ rfl).elim
    next same => cases same; exact (noResult _ rfl).elim
    next same => cases same; exact (noArg _ _ rfl).elim
    next same => cases same; exact (noMode _ rfl).elim
    next same => cases same; exact (noFlag _ rfl).elim
    next same => cases same; exact (noCount _ rfl).elim
    next same => cases same; exact (noTexts _ rfl).elim
    next => rfl

/-- A clause keeps the lock's name, and a clause that matches leaves a matcher. -/
theorem kept_of_lockClause {read read' : LockPattern} {clause : Sexp}
    (h : lockClause read clause = .ok read') :
    read'.name = read.name ∧
    (read'.matchers = [] → read.matchers = [] ∧ clause.head? ≠ some "match") := by
  obtain ⟨⟨tag, parts⟩, tagged, rest⟩ := bind_eq_ok h
  clear h
  cases eq_of_tagged tagged
  have other (differ : tag ≠ "match") (none : read.matchers = []) :
      read.matchers = [] ∧ (Sexp.list (.symbol tag :: parts)).head? ≠ some "match" :=
    ⟨none, fun same => differ (Option.some.inj same)⟩
  split at rest
  next same =>
    obtain ⟨matcher, _, made⟩ := bind_eq_ok rest
    cases made
    exact ⟨rfl, fun none =>
      absurd none (List.append_ne_nil_of_right_ne_nil _ (List.cons_ne_nil _ _))⟩
  next place same =>
    cases same
    obtain ⟨_, _, made⟩ := bind_eq_ok rest
    cases made
    exact ⟨rfl, other (by decide)⟩
  next place same =>
    cases same
    obtain ⟨_, _, made⟩ := bind_eq_ok rest
    split at made
    next =>
      cases made
      exact ⟨rfl, other (by decide)⟩
    next => cases made
  next place index same =>
    cases same
    obtain ⟨_, _, placed⟩ := bind_eq_ok rest
    split at placed
    next =>
      obtain ⟨_, _, made⟩ := bind_eq_ok placed
      cases made
      exact ⟨rfl, other (by decide)⟩
    next => cases placed
  next mode same =>
    cases same
    obtain ⟨_, _, made⟩ := bind_eq_ok rest
    split at made
    next =>
      cases made
      exact ⟨rfl, other (by decide)⟩
    next => cases made
  iterate 2
    next same =>
      cases same
      obtain ⟨_, _, made⟩ := bind_eq_ok rest
      cases made
      exact ⟨rfl, other (by decide)⟩
  next same =>
    cases same
    obtain ⟨_, _, made⟩ := bind_eq_ok rest
    cases made
    exact ⟨rfl, other (by decide)⟩
  next => cases rest

theorem refused_of_clauses (read : LockPattern) (clauses : List Sexp) :
    FailsOnly (fun fault => ∃ clause ∈ clauses, ClauseRefused read.name clause fault)
    (clauses.foldlM lockClause read) := by
  induction clauses generalizing read with
  | nil => exact .ok _
  | cons clause clauses ih =>
    rw [List.foldlM_cons]
    refine ((refused_of_lockClause read clause).mono fun _ h => ⟨clause, List.mem_cons_self,
      h⟩).bind fun next step => ?_
    refine (ih next).mono fun fault h => ?_
    obtain ⟨later, mem, h⟩ := h
    rw [(kept_of_lockClause step).1] at h
    exact ⟨later, List.mem_cons_of_mem _ mem, h⟩

/-- A lock without matchers has no clause that matches. -/
theorem unmatched_of_clauses {read read' : LockPattern} {clauses : List Sexp}
    (h : clauses.foldlM lockClause read = .ok read') (none : read'.matchers = []) :
    read.matchers = [] ∧ ∀ clause ∈ clauses, clause.head? ≠ some "match" := by
  induction clauses generalizing read with
  | nil =>
    cases h
    exact ⟨none, List.forall_mem_nil _⟩
  | cons clause clauses ih =>
    rw [List.foldlM_cons] at h
    obtain ⟨middle, step, h⟩ := bind_eq_ok h
    obtain ⟨before, later⟩ := ih h
    obtain ⟨first, here⟩ := (kept_of_lockClause step).2 before
    exact ⟨first, List.forall_mem_cons.mpr ⟨here, later⟩⟩

theorem fails_lockOf (parts : List Sexp) :
    FailsOnly (Misread (.list (.symbol "lock" :: parts))) (lockOf parts) := by
  cases parts with
  | nil => exact .error .unnamedLock
  | cons name clauses =>
    refine ((fails_textOf name).mono fun _ h => .inside (by simp) h).bind fun lock named => ?_
    have named := name?_of_textOf named
    refine ((refused_of_clauses _ clauses).mono fun fault h => ?_).bind fun pattern folded => ?_
    · obtain ⟨clause, mem, h⟩ := h
      cases h with
      | misread h => exact .inside (List.mem_cons_of_mem _ (List.mem_cons_of_mem _ mem)) h
      | malformed other => exact .lockClause named mem other
      | unknownMode whole other => exact .unknownMode named (whole ▸ mem) other
    · refine .guard (fun empty => .unmatchedLock named ?_) fun _ => .ok _
      exact (unmatched_of_clauses folded (List.isEmpty_iff.mp empty)).2

theorem ofName?_eq_some {word : String} {kind : ApiKind} (h : ApiKind.ofName? word = some kind) :
    word = kind.name := by
  have found := List.find?_some h
  exact (of_decide_eq_true found).symm

theorem fails_apiOf (parts : List Sexp) :
    FailsOnly (Misread (.list (.symbol "api" :: parts))) (apiOf parts) := by
  unfold apiOf
  split
  next kind clause clauses =>
    refine ((fails_symbolName kind).mono fun _ h => .inside (by simp) h).bind fun word named => ?_
    cases eq_of_symbolName named
    split
    next k known =>
      cases ofName?_eq_some known
      refine (FailsOnly.mapM fun form mem => ?_).bind fun _ _ => .ok _
      have part (fault : Fault) (h : Misread form fault) :
          Misread (.list (.symbol "api" :: .symbol k.name :: clause :: clauses)) fault :=
        .inside (List.mem_cons_of_mem _ (List.mem_cons_of_mem _ mem)) h
      refine ((fails_tagged form).mono part).bind fun parsed tagged => ?_
      obtain ⟨tag, parts⟩ := parsed
      have whole := eq_of_tagged tagged
      split
      next same =>
        cases same
        exact (fails_matcherOf whole).mono part
      next other =>
        refine .error (.apiClause mem ?_)
        rw [whole]
        rintro ⟨⟩
        exact other parts rfl
    next unknown =>
      exact .error (.inside (List.mem_cons_of_mem _ List.mem_cons_self) (.unknownApi unknown))
  next other =>
    refine .error (.api ?_)
    rcases parts with _ | ⟨kind, _ | ⟨clause, clauses⟩⟩
    · exact Nat.zero_lt_two
    · exact Nat.one_lt_two
    · exact (other kind clause clauses rfl).elim

/-! ## Tables -/

/-- An item is refused for what stands in it, for its tag, or for a base that is not the built-in
table. -/
theorem refused_of_itemOf (read : PatternTable × Bool) {items : List Sexp} {item : Sexp}
    (mem : item ∈ items) :
    FailsOnly (Refused (.ok (.list (.symbol "patterns" :: items)))) (itemOf read item) := by
  have part (fault : Fault) (h : Misread item fault) :
      Refused (.ok (.list (.symbol "patterns" :: items))) fault :=
    .misread (.inside (List.mem_cons_of_mem _ mem) h)
  refine ((fails_tagged item).mono part).bind fun parsed tagged => ?_
  obtain ⟨tag, parts⟩ := parsed
  cases eq_of_tagged tagged
  split
  next base same =>
    cases same
    refine ((fails_symbolName base).mono fun fault h => part fault (.inside (by simp) h)).bind
      fun word named => ?_
    cases eq_of_symbolName named
    split
    next => exact .ok _
    next other => exact .error (.unknownBase mem fun same => other (by cases same; rfl))
  next other same =>
    cases same
    exact .error (.unknownBase mem fun same => other _ (by rw [same]))
  next same =>
    cases same
    refine ((fails_texts parts).mono fun fault h => part fault ?_).bind fun _ _ => .ok _
    exact Misread.among fault h fun _ => List.mem_cons_of_mem _
  next same =>
    cases same
    exact ((fails_lockOf parts).mono part).bind fun _ _ => .ok _
  next same =>
    cases same
    exact ((fails_apiOf parts).mono part).bind fun _ _ => .ok _
  next noBase noTexts noLock noApi same =>
    cases same
    refine .error (.unknownForm mem rfl fun known => ?_)
    simp only [List.mem_cons, List.not_mem_nil, or_false] at known
    exact known.elim noBase fun h => h.elim noTexts fun h => h.elim noLock noApi

theorem refused_of_decode (form : Sexp) : FailsOnly (Refused (.ok form)) (decode form) := by
  refine ((fails_tagged form).mono fun _ h => .misread h).bind fun parsed tagged => ?_
  obtain ⟨tag, items⟩ := parsed
  cases eq_of_tagged tagged
  split
  next same =>
    cases same
    exact (FailsOnly.foldlM (fun read item mem => refused_of_itemOf read mem) _).bind fun _ _ =>
      .ok _
  next other =>
    refine .error (.notPatterns ?_)
    rintro ⟨⟩
    exact other items rfl

section Parse

variable {read : Sexp.Reader} {source text : String}

/-- A table is read, or refused for what its text says with an error that carries its source. -/
theorem refused_of_parse :
    FailsOnly (fun e => e.source = source ∧ Refused (read text) e.fault)
    (PatternTable.parseWith read source text) := by
  intro e failed
  unfold PatternTable.parseWith at failed
  cases given : read text with
  | error reason =>
    rw [given] at failed
    cases failed
    exact ⟨rfl, .unreadable⟩
  | ok form =>
    simp only [given, ofSexp_eq] at failed
    cases decoded : decode form with
    | error fault =>
      rw [decoded] at failed
      cases failed
      exact ⟨rfl, refused_of_decode form fault decoded⟩
    | ok table =>
      rw [decoded] at failed
      cases failed

theorem parse_eq_unreadable_iff {reason : String} :
    PatternTable.parseWith read source text = .error ⟨source, .unreadable reason⟩ ↔
      read text = .error reason := by
  constructor
  · exact fun failed => (refused_of_parse _ failed).2.unread
  · intro unread
    rw [PatternTable.parseWith, unread]
    rfl

end Parse

end Relock.Pattern
