import Mathlib.Data.List.Nodup
import Relock.Detection
import Relock.Proofs.Json
import Relock.Proofs.Report.Colours

/-!
# Records one to a line

The line of a record holds only printable characters, so the output for diagnostics divides at its
newlines into their records. Diagnostics have one line exactly if their records are the same values,
and that is exactly if they agree in all that a record shows (`Diagnostic.SameRecord`): fields that
are left out do not make records ambiguous, since the keys of all fields are distinct and each value
that is left out is the only one of its field that is.
-/

namespace Relock

open Json

/-! ## Objects with fields left out -/

/-- The fields of an object, without those that have no value. -/
def filled (slots : List (String × Option Json)) : List (String × Json) :=
  slots.filterMap fun s => s.2.map (s.1, ·)

theorem mem_filled {slots : List (String × Option Json)} {f : String × Json} : f ∈ filled slots ↔
    (f.1, some f.2) ∈ slots := by
  rw [filled, List.mem_filterMap]
  constructor
  · rintro ⟨s, mem, shown⟩
    obtain ⟨v, value, rfl⟩ := Option.map_eq_some_iff.mp shown
    show (s.1, some v) ∈ slots
    rwa [← value]
  · intro mem
    exact ⟨_, mem, rfl⟩

theorem filled_keys_sublist (slots : List (String × Option Json)) :
    ((filled slots).map (·.1)).Sublist (slots.map (·.1)) := by
  induction slots with
  | nil => exact .slnil
  | cons s slots ih =>
    obtain ⟨key, value⟩ := s
    cases value with
    | none => exact ih.cons key
    | some v => exact ih.cons_cons key

theorem proper_filled {slots : List (String × Option Json)} (distinct : (slots.map (·.1)).Nodup)
    (parts : ∀ s ∈ slots, ∀ v, s.2 = some v → Proper v) : Proper (.object (filled slots)) := by
  refine .object (distinct.sublist (filled_keys_sublist slots)) fun f mem => ?_
  exact parts _ (mem_filled.mp mem) _ rfl

theorem exists_related {α β : Type} {R : α → β → Prop} {xs : List α} {ys : List β}
    (related : List.Forall₂ R xs ys) {x : α} (mem : x ∈ xs) : ∃ y ∈ ys, R x y := by
  induction related with
  | nil => exact absurd mem List.not_mem_nil
  | @cons a b _ _ here _ ih =>
    rcases List.mem_cons.mp mem with rfl | later
    · exact ⟨b, List.mem_cons_self, here⟩
    · obtain ⟨y, mem, related⟩ := ih later
      exact ⟨y, List.mem_cons_of_mem b mem, related⟩

/-- Objects with the same keys, some left out, are the same exactly if for each key both have the
same value or none. -/
theorem same_filled_iff {slots slots' : List (String × Option Json)}
    (distinct : (slots.map (·.1)).Nodup) (keys : slots.map (·.1) = slots'.map (·.1)) :
    Same (.object (filled slots)) (.object (filled slots')) ↔
      List.Forall₂ (fun s s' => Option.Rel Same s.2 s'.2) slots slots' := by
  have distinct' : (slots'.map (·.1)).Nodup := keys ▸ distinct
  have paired : List.Forall₂ (fun s s' : String × Option Json => s.1 = s'.1) slots slots' := by
    rwa [← List.forall₂_eq_eq_eq, List.forall₂_map_left_iff, List.forall₂_map_right_iff] at keys
  obtain ⟨length, key⟩ := List.forall₂_iff_zip.mp paired
  rw [same_object_iff]
  constructor
  · rintro ⟨row, perm, same⟩
    refine List.forall₂_iff_zip.mpr ⟨length, fun {s s'} mem => ?_⟩
    obtain ⟨hs, hs'⟩ := List.of_mem_zip mem
    -- a field of this key in the other object comes from the slot paired with this one, as its keys
    -- are distinct
    have found (v : Json) (value : s.2 = some v) : ∃ w, s'.2 = some w ∧ Same v w := by
      have inRow : (s.1, v) ∈ row := perm.mem_iff.mp (mem_filled.mpr (value ▸ hs))
      obtain ⟨g, mem', sameKey, sameValue⟩ := exists_related same inRow
      have only := List.inj_on_of_nodup_map distinct' hs' (mem_filled.mp mem')
        ((key mem).symm.trans sameKey)
      exact ⟨g.2, congrArg Prod.snd only, sameValue⟩
    have found' (w : Json) (value : s'.2 = some w) : ∃ v, s.2 = some v ∧ Same v w := by
      have inFilled : (s'.1, w) ∈ filled slots' := mem_filled.mpr (value ▸ hs')
      obtain ⟨f, inRow, sameKey, sameValue⟩ := exists_related same.flip inFilled
      have only := List.inj_on_of_nodup_map distinct hs (mem_filled.mp (perm.mem_iff.mpr inRow))
        ((key mem).trans sameKey.symm)
      exact ⟨f.2, congrArg Prod.snd only, sameValue⟩
    cases value : s.2 with
    | some v =>
      obtain ⟨w, value', same⟩ := found v value
      rw [value']
      exact .some same
    | none =>
      cases value' : s'.2 with
      | none => exact .none
      | some w =>
        obtain ⟨v, shown, _⟩ := found' w value'
        exact absurd (value.symm.trans shown) (Option.some_ne_none v).symm
  · intro same
    have both : List.Forall₂ (fun s s' => s.1 = s'.1 ∧ Option.Rel Same s.2 s'.2) slots slots' :=
      List.forall₂_iff_zip.mpr ⟨length, fun mem => ⟨key mem, (List.forall₂_iff_zip.mp same).2 mem⟩⟩
    refine ⟨filled slots, List.Perm.refl _, List.rel_filterMap ?_ both⟩
    rintro ⟨key, value⟩ ⟨_, value'⟩ ⟨rfl, same⟩
    cases same with
    | none => exact .none
    | some same => exact .some ⟨rfl, same⟩

/-- A value that is left out in one case. -/
def optional (blank : Prop) [Decidable blank] (v : Json) : Option Json := if blank then none
    else some v

theorem filled_optional (key : String) (blank : Prop) [Decidable blank] (v : Json)
    (slots : List (String × Option Json)) :
    filled ((key, optional blank v) :: slots) = (if blank then [] else [(key, v)]) ++
    filled slots := by
  unfold optional
  split
  next => rfl
  next => rfl

theorem forall_optional {blank : Prop} [Decidable blank] {v : Json} {P : Json → Prop} :
    (∀ w, optional blank v = some w → P w) ↔ (¬ blank → P v) := by
  unfold optional
  split
  next out => simp only [reduceCtorEq, false_implies, implies_true, not_true, out]
  next shown => simp only [Option.some.injEq, forall_eq', shown, not_false_eq_true, true_implies]

theorem rel_optional_iff {blank blank' : Prop} [Decidable blank] [Decidable blank'] {v w : Json} :
    Option.Rel Same (optional blank v) (optional blank' w) ↔ (blank ↔ blank') ∧
    (¬ blank → Same v w) := by
  unfold optional
  split
  next out =>
    split
    next out' => simp only [out, out', Option.rel_none_none, not_true, false_implies, and_true]
    next shown' => simp only [out, shown', Option.not_rel_none_some, iff_false, not_true, false_and]
  next shown =>
    split
    next out' => simp only [shown, out', Option.not_rel_some_none, iff_true, false_and]
    next shown' =>
      simp only [shown, shown', Option.rel_some_some, true_and, not_false_eq_true, true_implies]

/-! ## What a record shows -/

/-- What a record shows of a further place. -/
def Related.shown (r : Related) : String × Int × String := (r.point.file, r.point.line, r.message)

/-- The fields of the record of a further place. -/
def Related.slots (r : Related) : List (String × Option Json) :=
  [("file", some (.string r.point.file)), ("linenr", some (.int r.point.line)),
    ("message", some (.string r.message))]

theorem Related.slots_distinct (r : Related) : (r.slots.map (·.1)).Nodup := by
  show ["file", "linenr", "message"].Nodup
  decide

namespace Diagnostic

/-- Diagnostics agree in all that their records show: the checkers and the columns of further places
are not shown, and the details are values. -/
structure SameRecord (d e : Diagnostic) : Prop where
  point : d.point = e.point
  severity : d.severity = e.severity
  message : d.message = e.message
  errorId : d.errorId = e.errorId
  confidence : d.confidence = e.confidence
  cwe : d.cwe = e.cwe
  function : d.function = e.function
  callChain : d.callChain = e.callChain
  related : d.related.map Related.shown = e.related.map Related.shown
  evidence : Same (.object d.evidence) (.object e.evidence)

/-- The fields that a record may have. -/
def slots (d : Diagnostic) : List (String × Option Json) :=
  [("file", some (.string d.point.file)), ("linenr", some (.int d.point.line)),
    ("column", some (.int d.point.column)), ("severity", some (.string d.severity.name)),
    ("message", some (.string d.message)), ("errorId", some (.string d.errorId)),
    ("confidence", some (.string d.confidence.name)), ("cwe", optional (d.cwe = 0) (.int d.cwe)),
    ("function", optional (d.function = "") (.string d.function)),
    ("callChain", optional (d.callChain = []) (.array (d.callChain.map .string))),
    ("related", optional (d.related = []) (.array (d.related.map relatedRecord))),
    ("evidence", optional (d.evidence = []) (.object d.evidence))]

theorem slots_distinct (d : Diagnostic) : (d.slots.map (·.1)).Nodup := by
  show ["file", "linenr", "column", "severity", "message", "errorId", "confidence", "cwe",
    "function", "callChain", "related", "evidence"].Nodup
  decide

theorem record_eq (d : Diagnostic) : d.record = .object (filled d.slots) := by
  have always (key : String) (v : Json) (slots : List (String × Option Json)) :
      filled ((key, some v) :: slots) = (key, v) :: filled slots := rfl
  have none : filled [] = [] := rfl
  simp only [record, slots, always, filled_optional, none, List.append_assoc, List.cons_append,
    List.nil_append, List.append_nil, ne_eq, ite_not, String.isEmpty_iff, List.isEmpty_iff]

/-- The record of a further place tells all that is shown of it. -/
theorem same_relatedRecord_iff {r r' : Related} : Same (relatedRecord r) (relatedRecord r') ↔
    r.shown = r'.shown := by
  have keys : r.slots.map (·.1) = r'.slots.map (·.1) := rfl
  refine (same_filled_iff r.slots_distinct keys).trans ?_
  simp only [Related.slots, List.forall₂_cons, Option.rel_some_some, same_string_iff, same_int_iff,
    List.forall₂_nil_left_iff, and_true, Related.shown, Prod.mk.injEq]

theorem same_strings_iff {texts texts' : List String} :
    Same (.array (texts.map .string)) (.array (texts'.map .string)) ↔ texts = texts' := by
  simp only [same_array_iff, List.forall₂_map_left_iff, List.forall₂_map_right_iff, same_string_iff,
    List.forall₂_eq_eq_eq]

theorem same_relatedRecords_iff {row row' : List Related} :
    Same (.array (row.map relatedRecord)) (.array (row'.map relatedRecord)) ↔
      row.map Related.shown = row'.map Related.shown := by
  rw [← List.forall₂_eq_eq_eq]
  simp only [same_array_iff, List.forall₂_map_left_iff, List.forall₂_map_right_iff,
    same_relatedRecord_iff]

/-- What is left out when it is blank is told by whether it is, and by what it is if not. -/
theorem shown_iff {blank blank' same : Prop} (together : same → (blank ↔ blank'))
    (both : blank → blank' → same) :
    ((blank ↔ blank') ∧ (¬ blank → same)) ↔ same := by
  constructor
  · rintro ⟨blanks, shown⟩
    by_cases left : blank
    · exact both left (blanks.mp left)
    · exact shown left
  · exact fun h => ⟨together h, fun _ => h⟩

theorem shown_eq_iff {α : Type} {b x y : α} : ((x = b ↔ y = b) ∧ (¬ x = b → x = y)) ↔ x = y :=
  shown_iff (fun same => same ▸ Iff.rfl) (fun left right => left.trans right.symm)

theorem shown_related_iff {row row' : List Related} :
    ((row = [] ↔ row' = []) ∧ (¬ row = [] → row.map Related.shown = row'.map Related.shown)) ↔
      row.map Related.shown = row'.map Related.shown := by
  refine shown_iff (fun same => ?_) (fun left right => by rw [left, right])
  rw [← List.map_eq_nil_iff, same, List.map_eq_nil_iff]

theorem shown_object_iff {fields fields' : List (String × Json)} :
    ((fields = [] ↔ fields' = []) ∧ (¬ fields = [] → Same (.object fields) (.object fields'))) ↔
      Same (.object fields) (.object fields') := by
  refine shown_iff (fun same => ?_) (fun left right => ?_)
  · obtain ⟨row, perm, same⟩ := same_object_iff.mp same
    rw [← List.length_eq_zero_iff, perm.length_eq, same.length_eq, List.length_eq_zero_iff]
  · rw [left, right]
    exact .object (.refl _) rfl .nil

theorem name_severity_iff {s t : Severity} : s.name = t.name ↔ s = t := by
  cases s <;> cases t <;> decide

theorem name_confidence_iff {c c' : Confidence} : c.name = c'.name ↔ c = c' := by
  cases c <;> cases c' <;> decide

/-- Records are the same values exactly if the diagnostics agree in all that records show. -/
theorem same_record_iff {d e : Diagnostic} : Same d.record e.record ↔ d.SameRecord e := by
  have keys : d.slots.map (·.1) = e.slots.map (·.1) := rfl
  rw [record_eq, record_eq, same_filled_iff d.slots_distinct keys]
  simp only [slots, List.forall₂_cons, List.forall₂_nil_left_iff, and_true, Option.rel_some_some,
    rel_optional_iff, same_string_iff, same_int_iff, same_strings_iff, same_relatedRecords_iff,
    shown_eq_iff, shown_related_iff, shown_object_iff, name_severity_iff, name_confidence_iff]
  constructor
  · rintro ⟨file, line, column, severity, message, errorId, confidence, cwe, function, callChain,
      related, evidence⟩
    have point : d.point = e.point := by rw [SourcePoint.mk.injEq]; exact ⟨file, line, column⟩
    exact { point, severity, message, errorId, confidence, cwe, function, callChain, related,
            evidence }
  · intro same
    exact ⟨same.point ▸ rfl, same.point ▸ rfl, same.point ▸ rfl, same.severity, same.message,
      same.errorId, same.confidence, same.cwe, same.function, same.callChain, same.related,
      same.evidence⟩

theorem proper_relatedRecord (r : Related) : Proper (relatedRecord r) := by
  refine proper_filled r.slots_distinct ?_
  simp only [Related.slots, List.forall_mem_cons, Option.some.injEq, forall_eq']
  exact ⟨.string _, .int _, .string _, List.forall_mem_nil _⟩

/-- If the keys of the details are distinct, those of the record are. -/
theorem proper_record {d : Diagnostic} (proper : Proper (.object d.evidence)) :
    Proper d.record := by
  have row {α : Type} {f : α → Json} (each : ∀ x, Proper (f x)) (xs : List α) :
      Proper (.array (xs.map f)) := by
    refine .array fun v mem => ?_
    obtain ⟨x, _, rfl⟩ := List.mem_map.mp mem
    exact each x
  rw [record_eq]
  refine proper_filled d.slots_distinct ?_
  simp only [slots, List.forall_mem_cons, Option.some.injEq, forall_eq', forall_optional]
  exact ⟨.string _, .int _, .int _, .string _, .string _, .string _, .string _, fun _ => .int _,
    fun _ => .string _, fun _ => row .string _, fun _ => row proper_relatedRecord _,
      fun _ => proper, List.forall_mem_nil _⟩

/-! ## Lines -/

theorem printable_recordLine (d : Diagnostic) : ∀ c ∈ d.recordLine.toList, Printable c :=
  fun _ => printable_render d.record

theorem newline_not_mem_recordLine (d : Diagnostic) : '\n' ∉ d.recordLine.toList :=
  fun mem => absurd (d.printable_recordLine _ mem) (by decide)

end Diagnostic

theorem writeAll_json (colours : Bool) (ds : List Diagnostic) :
    writeAll .json colours ds = String.join ((ds.map (·.recordLine)).map (· ++ "\n")) := by
  rw [writeAll, writeAllWith_eq, List.map_map]
  exact String.append_empty

/-- Records are written one to a line and told apart by their lines: lines hold only printable
characters, the output for diagnostics has as many newlines and divides at them into the lines of
the diagnostics, and so do the records of a run; and diagnostics have one line exactly if their
records are the same values, so exactly if they agree in all that records show. -/
theorem records_unambiguous (colours : Bool) (ds : List Diagnostic) :
    (∀ d ∈ ds, ∀ c ∈ d.recordLine.toList, 0x20 ≤ c.toNat ∧ c.toNat ≤ 0x7e) ∧
    (writeAll .json colours ds).toList.count '\n' = ds.length ∧
    (writeAll .json colours ds).toList.splitOn '\n' = ds.map (·.recordLine.toList) ++ [[]] ∧
    (∀ run : Detection, run.diagnostics = ds → ds ≠ [] →
      run.recordLines.toList.splitOn '\n' = ds.map (·.recordLine.toList)) ∧
    ∀ d ∈ ds, Proper (.object d.evidence) →
      ∀ e ∈ ds, (d.recordLine = e.recordLine ↔ Same d.record e.record) ∧
      (Same d.record e.record ↔ d.SameRecord e) := by
  have lines : ∀ line ∈ ds.map (·.recordLine), '\n' ∉ line.toList := by
    intro line mem
    obtain ⟨d, _, rfl⟩ := List.mem_map.mp mem
    exact d.newline_not_mem_recordLine
  refine ⟨fun d _ => d.printable_recordLine, ?_, ?_, ?_, ?_⟩
  · rw [writeAll_json, Text.count_newline lines, List.length_map]
  · have whole := Text.intercalate_newline (ds.map (·.recordLine)) ""
    rw [String.append_empty] at whole
    rw [writeAll_json, ← whole, Text.splitOn_newline, List.map_append, List.map_map]
    · rfl
    · intro line mem
      rcases List.mem_append.mp mem with mem | mem
      · exact lines line mem
      · rw [List.mem_singleton.mp mem]
        decide
    · exact List.concat_ne_nil _ _
  · rintro run rfl nonempty
    rw [Detection.recordLines, Text.splitOn_newline lines (mt List.map_eq_nil_iff.mp nonempty),
      List.map_map]
    rfl
  · intro d _ proper e _
    exact ⟨render_eq_iff (d.proper_record proper), Diagnostic.same_record_iff⟩

/-- A finding whose message holds a quote, a backslash, control characters, a line separator and a
character of two units, with details. -/
def awkward : Diagnostic where
  errorId := "doubleLock"
  message := "\"a\\\n\x7f\u2028🔒"
  severity := .error
  evidence := [("lock", .string "m"), ("held", .object [("line", .int 3), ("here", .bool true)])]

/-- The same finding with the fields of its details in other orders. -/
def awkwardRearranged : Diagnostic :=
  { awkward with evidence := [("held", .object [("here", .bool true), ("line", .int 3)]),
    ("lock", .string "m")] }

/-- The same finding in a function. -/
def awkwardInside : Diagnostic := { awkward with function := "f" }

theorem records_unambiguous_awkward :
    Proper (.object awkward.evidence) ∧ awkward.recordLine = awkwardRearranged.recordLine ∧
    awkward.recordLine ≠ awkwardInside.recordLine ∧
    (writeAll .json false [awkward, awkwardRearranged, awkwardInside]).toList.count '\n' = 3 := by
  have proper : Proper (.object awkward.evidence) := by
    refine .object (by decide) ?_
    simp only [awkward, List.forall_mem_cons]
    refine ⟨.string _, .object (by decide) ?_, List.forall_mem_nil _⟩
    simp only [List.forall_mem_cons]
    exact ⟨.int _, .bool _, List.forall_mem_nil _⟩
  have details : Same (.object awkward.evidence) (.object awkwardRearranged.evidence) :=
    .object (.swap _ _ _) rfl
      (.cons (.object (.swap _ _ _) rfl (.cons (.bool _) (.cons (.int _) .nil)))
      (.cons (.string _) .nil))
  obtain ⟨_, count, _, _, lines⟩ :=
    records_unambiguous false [awkward, awkwardRearranged, awkwardInside]
  have each := lines awkward (by simp only [List.mem_cons, true_or]) proper
  obtain ⟨line, shown⟩ := each awkwardRearranged (by simp only [List.mem_cons, true_or, or_true])
  obtain ⟨line', shown'⟩ := each awkwardInside (by simp only [List.mem_cons, true_or, or_true])
  refine ⟨proper, ?_, ?_, count⟩
  · refine line.mpr (shown.mpr ?_)
    exact ⟨rfl, rfl, rfl, rfl, rfl, rfl, rfl, rfl, rfl, details⟩
  · intro same
    have function : "" = "f" := (shown'.mp (line'.mp same)).function
    exact absurd function (by decide)

end Relock
