import Mathlib.Data.List.Forall2
import Relock.Report.Writer

/-!
# Colours change only escape sequences

`Terminal.bare` leaves out the escape sequences of a text. `Terminal.Shows` relates a coloured text
to the plain one that is left of it, whatever follows; it holds of a painted text without escape
characters and of pieces put together. The text form of a diagnostic is put together from such
pieces, and so are its last line and the whole output.

Of the painter only this is used: it wraps a text in escape sequences (`Terminal.Wraps`). Which ones
they are does not matter.
-/

namespace Relock
namespace Terminal

/-! ## Texts without their escape sequences -/

/-- The character that begins an escape sequence. -/
def escape : Char := '\x1b'

/-- The length of the escape sequence that a text begins with: an opening bracket after the escape
character, digits and the letter `m`. It is 0 if the text begins with none. -/
def sequenceLength : List Char → Nat
  | first :: '[' :: cs =>
    let digits := (cs.takeWhile Char.isDigit).length
    if first = escape ∧ 0 < digits ∧ cs[digits]? = some 'm' then digits + 3 else 0
  | _ => 0

/-- The rest of a text without its escape sequences; of one of them, `skip` characters are still to
come. -/
def bareFrom : (skip : Nat) → List Char → List Char
  | _, [] => []
  | skip + 1, _ :: cs => bareFrom skip cs
  | 0, c :: cs => match sequenceLength (c :: cs) with
    | 0 => c :: bareFrom 0 cs
    | skip + 1 => bareFrom skip cs

/-- A text without its escape sequences. -/
def bare (text : String) : String := String.ofList (bareFrom 0 text.toList)

theorem bareFrom_append (front rest : List Char) :
    bareFrom front.length (front ++ rest) = bareFrom 0 rest := by
  induction front with
  | nil => rfl
  | cons c front ih => exact ih

theorem bareFrom_cons {c : Char} (other : c ≠ escape) (cs : List Char) :
    bareFrom 0 (c :: cs) = c :: bareFrom 0 cs := by
  have none : sequenceLength (c :: cs) = 0 := by
    unfold sequenceLength
    split
    next same =>
      cases same
      exact if_neg fun h => other h.1
    next => rfl
  rw [bareFrom, none]

theorem bareFrom_clean {cs : List Char} (clean : escape ∉ cs) (rest : List Char) :
    bareFrom 0 (cs ++ rest) = cs ++ bareFrom 0 rest := by
  induction cs with
  | nil => rfl
  | cons c cs ih =>
    obtain ⟨here, later⟩ := not_or.mp (mt List.mem_cons.mpr clean)
    rw [List.cons_append, bareFrom_cons (Ne.symm here), ih later, List.cons_append]

theorem sequenceLength_digits {digits : List Char} (nonempty : digits ≠ [])
    (all : ∀ c ∈ digits, c.isDigit = true) (rest : List Char) :
    sequenceLength (escape :: '[' :: (digits ++ 'm' :: rest)) = digits.length + 3 := by
  have counted : (digits ++ 'm' :: rest).takeWhile Char.isDigit = digits := by
    rw [List.takeWhile_append_of_pos all]
    exact List.append_nil _
  have closed : (digits ++ 'm' :: rest)[digits.length]? = some 'm' := by
    rw [List.getElem?_append_right (Nat.le_refl _), Nat.sub_self, List.getElem?_cons_zero]
  unfold sequenceLength
  simp only [counted]
  exact if_pos ⟨trivial, List.length_pos_iff.mpr nonempty, closed⟩

/-- The escape sequence with the given digits. -/
def sequenceOf (digits : List Char) : List Char := escape :: '[' :: (digits ++ ['m'])

/-- What stands for a code in an escape sequence. -/
def IsCode (digits : List Char) : Prop := digits ≠ [] ∧ ∀ c ∈ digits, c.isDigit = true

/-- An escape sequence is left out. -/
theorem bareFrom_sequenceOf {digits : List Char} (code : IsCode digits) (rest : List Char) :
    bareFrom 0 (sequenceOf digits ++ rest) = bareFrom 0 rest := by
  have spelled : sequenceOf digits ++ rest = escape :: '[' :: (digits ++ 'm' :: rest) := by
    simp only [sequenceOf, List.cons_append, List.append_assoc, List.nil_append]
  rw [spelled, bareFrom, sequenceLength_digits code.1 code.2]
  have skipped := bareFrom_append ('[' :: (digits ++ ['m'])) rest
  simpa only [List.length_cons, List.length_append, List.length_nil, List.cons_append,
    List.append_assoc, List.nil_append] using skipped

theorem bareFrom_flatMap_sequenceOf {codes : List (List Char)}
    (all : ∀ digits ∈ codes, IsCode digits) (rest : List Char) :
    bareFrom 0 (codes.flatMap sequenceOf ++ rest) = bareFrom 0 rest := by
  induction codes with
  | nil => rfl
  | cons digits codes ih =>
    obtain ⟨here, later⟩ := List.forall_mem_cons.mp all
    rw [List.flatMap_cons, List.append_assoc, bareFrom_sequenceOf here, ih later]

/-! ## Painters -/

/-- The painter puts escape sequences before a text, and the one with the code 0 after it. -/
def Wraps (paint : Painter) : Prop :=
  ∀ style colour text, ∃ codes : List (List Char), (∀ digits ∈ codes, IsCode digits) ∧
    (paint style colour text).toList = codes.flatMap sequenceOf ++ text.toList ++ sequenceOf ['0']

theorem isCode_toDigits (code : Nat) : IsCode (Nat.toDigits 10 code) :=
  ⟨Nat.toDigits_ne_nil, fun _ mem => Nat.isDigit_of_mem_toDigits (by decide) (by decide) mem⟩

theorem toList_sequence (code : Nat) :
    (sequence code).toList = sequenceOf (Nat.toDigits 10 code) := by
  show ("\x1b[" ++ toString code ++ "m").toList = _
  simp only [String.toList_append, Nat.toString_eq_ofList_toDigits, String.toList_ofList,
    List.append_assoc]
  rfl

theorem wraps_paint : Wraps paint := by
  intro style colour text
  have last : (sequence 0).toList = sequenceOf ['0'] := toList_sequence 0
  cases colour with
  | none =>
    refine ⟨[Nat.toDigits 10 style.code], List.forall_mem_singleton.mpr (isCode_toDigits _), ?_⟩
    simp only [paint, String.toList_append, toList_sequence, ← last, List.flatMap_cons,
      List.flatMap_nil, List.append_nil]
  | some c =>
    refine ⟨[Nat.toDigits 10 style.code, Nat.toDigits 10 c.code],
      List.forall_mem_cons.mpr ⟨isCode_toDigits _,
        List.forall_mem_singleton.mpr (isCode_toDigits _)⟩, ?_⟩
    simp only [paint, String.toList_append, toList_sequence, ← last, List.flatMap_cons,
      List.flatMap_nil, List.append_nil, List.append_assoc]

/-! ## Texts without escape characters -/

/-- A text holds no escape character. -/
def Clean (text : String) : Prop := escape ∉ text.toList

instance : DecidablePred Clean := fun _ => inferInstanceAs (Decidable (¬ _))

variable {text more : String}

@[simp] theorem clean_append : Clean (text ++ more) ↔ Clean text ∧ Clean more := by
  simp only [Clean, String.toList_append, List.mem_append, not_or]

theorem clean_toString : Clean (toString text) ↔ Clean text := Iff.rfl

theorem clean_nat (n : Nat) : Clean (toString n) := by
  intro mem
  rw [Nat.toString_eq_ofList_toDigits, String.toList_ofList] at mem
  exact absurd (Nat.isDigit_of_mem_toDigits (by decide) (by decide) mem) (by decide)

theorem clean_int (n : Int) : Clean (toString n) := by
  cases n with
  | ofNat n => exact clean_nat n
  | negSucc n => exact clean_append.mpr ⟨by decide, clean_nat (n + 1)⟩

theorem clean_intercalate {texts : List String} (clean : Clean text) (all : ∀ t ∈ texts, Clean t) :
    Clean (text.intercalate texts) := by
  induction texts with
  | nil => rw [String.intercalate_nil]; decide
  | cons first texts ih =>
    obtain ⟨here, later⟩ := List.forall_mem_cons.mp all
    by_cases last : texts = []
    · rw [last, String.intercalate_singleton]
      exact here
    · rw [String.intercalate_cons_of_ne_nil last]
      exact clean_append.mpr ⟨clean_append.mpr ⟨here, clean⟩, ih later⟩

/-! ## Coloured texts and plain ones -/

/-- The second text holds no escape character and is what is left of the first, whatever follows. -/
structure Shows (coloured plain : String) : Prop where
  clean : Clean plain
  left : ∀ rest, bareFrom 0 (coloured.toList ++ rest) = plain.toList ++ bareFrom 0 rest

variable {coloured plain : String}

theorem Clean.shows (clean : Clean text) : Shows text text := ⟨clean, bareFrom_clean clean⟩

theorem Shows.append {coloured' plain' : String} (first : Shows coloured plain)
    (second : Shows coloured' plain') :
    Shows (coloured ++ coloured') (plain ++ plain') := by
  refine ⟨clean_append.mpr ⟨first.clean, second.clean⟩, fun rest => ?_⟩
  rw [String.toList_append, String.toList_append, List.append_assoc, List.append_assoc, first.left,
    second.left]

/-- A wrapped text without escape characters shows itself. -/
theorem Wraps.shows {paint : Painter} (wraps : Wraps paint) (clean : Clean text) (style : Attribute)
    (colour : Option Colour) : Shows (paint style colour text) text := by
  obtain ⟨codes, all, spelled⟩ := wraps style colour text
  have zero : IsCode ['0'] := ⟨by decide, List.forall_mem_singleton.mpr (by decide)⟩
  refine ⟨clean, fun rest => ?_⟩
  rw [spelled, List.append_assoc, List.append_assoc, bareFrom_flatMap_sequenceOf all,
    bareFrom_clean clean, bareFrom_sequenceOf zero]

theorem Shows.bare (shows : Shows coloured plain) : bare coloured = plain := by
  have left := shows.left []
  rw [List.append_nil] at left
  rw [Terminal.bare, left]
  exact (congrArg String.ofList (List.append_nil _)).trans String.ofList_toList

theorem shows_intercalate {rows rows' : List String} (clean : Clean text)
    (shows : List.Forall₂ Shows rows rows') :
    Shows (text.intercalate rows) (text.intercalate rows') := by
  induction shows with
  | nil => exact Clean.shows (by rw [String.intercalate_nil]; decide)
  | @cons row row' rows rows' here later ih =>
    cases later with
    | nil => rwa [String.intercalate_singleton, String.intercalate_singleton]
    | cons =>
      rw [String.intercalate_cons_cons, String.intercalate_cons_cons]
      exact (here.append clean.shows).append ih

theorem shows_join {rows rows' : List String} (shows : List.Forall₂ Shows rows rows') :
    Shows (String.join rows) (String.join rows') := by
  induction shows with
  | nil => exact Clean.shows (by decide)
  | cons here _ ih =>
    rw [String.join_cons, String.join_cons]
    exact here.append ih

end Terminal

open Terminal (Clean Shows Wraps)

variable {paint : Terminal.Painter}

theorem shows_tinted (wraps : Wraps paint) {text : String} (clean : Clean text)
    (style : Terminal.Attribute) (colour : Option Terminal.Colour) :
    Shows (tinted paint true style colour text) (tinted paint false style colour text) :=
  wraps.shows clean style colour

theorem SourcePoint.clean_text {point : SourcePoint} (clean : Clean point.file) :
    Clean point.text := by
  unfold SourcePoint.text
  split
  · decide
  · split
    · simp +decide only [Terminal.clean_append, Terminal.clean_toString, Terminal.clean_int, clean,
        and_self]
    · simp +decide only [Terminal.clean_append, Terminal.clean_toString, Terminal.clean_int, clean,
        and_self]

namespace Diagnostic

/-- The texts that the text form of a diagnostic is made of. -/
def texts (d : Diagnostic) : List String :=
  [d.errorId, d.message, d.point.file] ++ d.callChain ++ d.related.flatMap fun r =>
    [r.message, r.point.file]

theorem shows_remark {label label' text : String} (shows : Shows label label')
    (clean : Clean text) :
    Shows (remark label text) (remark label' text) := by
  have front : Clean "  = " := by decide
  have colon : Clean ": " := by decide
  exact ((front.shows.append shows).append colon.shows).append clean.shows

variable (wraps : Wraps paint) {d : Diagnostic} (clean : ∀ text ∈ d.texts, Clean text)

include wraps clean

/-- Each line is built from the same pieces, coloured and plain. -/
theorem shows_textLines :
    List.Forall₂ Shows (d.textLines paint true) (d.textLines paint false) := by
  simp only [texts, List.forall_mem_append, List.forall_mem_cons, List.forall_mem_flatMap] at clean
  obtain ⟨⟨⟨errorId, message, file, _⟩, chain⟩, related⟩ := clean
  have space : Clean " " := by decide
  have colon : Clean ": " := by decide
  have arrow := shows_tinted wraps (show Clean "-->" by decide) .bold (some .blue)
  have label {text : String} (clean : Clean text) := shows_tinted wraps clean .bold (some .cyan)
  have head : Clean s!"{d.severity.name}[{d.errorId}]" := by
    have name : Clean d.severity.name := by cases d.severity <;> decide
    simp +decide only [Terminal.clean_append, Terminal.clean_toString, name, errorId, and_self]
  have cwe : Clean s!"CWE-{d.cwe}" := by
    simp +decide only [Terminal.clean_append, Terminal.clean_int, and_self]
  have link : Clean s!"https://cwe.mitre.org/data/definitions/{d.cwe}.html" := by
    simp +decide only [Terminal.clean_append, Terminal.clean_int, and_self]
  have place {indent : String} (clean : Clean indent) {point : SourcePoint}
      (file : Clean point.file) :=
    ((clean.shows.append arrow).append space.shows).append (SourcePoint.clean_text file).shows
  refine List.rel_append (List.rel_append (List.rel_append (List.rel_append
    (.cons ?_ (.cons ?_ .nil)) ?_) ?_) ?_) (.cons ?_ (.cons ?_ .nil))
  · exact ((shows_tinted wraps head .bold _).append colon.shows).append
      (shows_tinted wraps message .bold none)
  · exact place (by decide) file
  · split
    · exact .nil
    · exact .cons (shows_remark (label (by decide)) (Terminal.clean_intercalate (by decide) chain))
        .nil
  · rw [List.flatMap_def, List.flatMap_def]
    refine List.rel_flatten
      (List.forall₂_map_left_iff.mpr (List.forall₂_map_right_iff.mpr (List.forall₂_same.mpr ?_)))
    intro r mem
    obtain ⟨message, file, _⟩ := related r mem
    exact .cons (shows_remark (label (by decide)) message) (.cons (place (by decide) file) .nil)
  · split
    · exact .nil
    · exact .cons (shows_remark (shows_tinted wraps cwe .underline (some .blue)) link) .nil
  · have name : Clean d.confidence.name := by cases d.confidence <;> decide
    exact shows_remark (Terminal.Clean.shows (by decide)) name
  · exact Terminal.Clean.shows (by decide)

theorem shows_rendered : Shows (d.rendered paint .text true) (d.rendered paint .text false) := by
  have newline : Clean "\n" := by decide
  exact (Terminal.shows_intercalate newline (shows_textLines wraps clean)).append newline.shows

end Diagnostic

/-! ## The whole output -/

namespace Tally

theorem clean_counted (n : Nat) {noun : String} (clean : Clean noun) :
    ∀ text ∈ counted n noun, Clean text := by
  unfold counted
  split
  · exact List.forall_mem_nil _
  · have plural : Clean (if n = 1 then "" else "s") := by split <;> decide
    refine List.forall_mem_singleton.mpr ?_
    simp +decide only [Terminal.clean_append, Terminal.clean_toString, Terminal.clean_nat, clean,
      plural, and_self]

theorem clean_summary (t : Tally) : Clean t.summary := by
  have errors := clean_counted t.errors (show Clean "error" by decide)
  have warnings := clean_counted t.warnings (show Clean "warning" by decide)
  have informations : ∀ text ∈ if t.informations = 0 then [] else [s!"{t.informations} info"],
      Clean text := by
    split
    · exact List.forall_mem_nil _
    · refine List.forall_mem_singleton.mpr ?_
      simp +decide only [Terminal.clean_append, Terminal.clean_nat, and_self]
  have total : Clean s!" ({t.total} total)" := by
    simp +decide only [Terminal.clean_append, Terminal.clean_nat, and_self]
  have line {parts : List String} (clean : ∀ text ∈ parts, Clean text) :
      Clean (if parts.isEmpty then "no double locks found"
        else "; ".intercalate parts ++ s!" ({t.total} total)") := by
    split
    · decide
    · exact Terminal.clean_append.mpr ⟨Terminal.clean_intercalate (by decide) clean, total⟩
  exact line (List.forall_mem_append.mpr ⟨List.forall_mem_append.mpr ⟨errors, warnings⟩,
    informations⟩)

theorem shows_rendered (wraps : Wraps paint) (t : Tally) :
    Shows (t.rendered paint .text true) (t.rendered paint .text false) := by
  have newline : Clean "\n" := by decide
  exact (shows_tinted wraps t.clean_summary .bold _).append newline.shows

/-- The findings of some diagnostics counted by severity. -/
def ofDiagnostics (ds : List Diagnostic) : Tally := ds.foldl (fun t d => t.add d.severity) {}

end Tally

theorem Writer.emitAll_eq (w : Writer) (ds : List Diagnostic) :
    w.emitAll ds = (String.join (ds.map (·.rendered w.paint w.format w.colours)),
      { w with tally := ds.foldl (fun t d => t.add d.severity) w.tally }) := by
  induction ds generalizing w with
  | nil => rfl
  | cons d ds ih => simp only [emitAll, emit, ih, List.map_cons, String.join_cons, List.foldl_cons]

/-- The output is what each diagnostic adds to it, in order, and the last line. -/
theorem writeAllWith_eq (format : Format) (colours : Bool) (ds : List Diagnostic) :
    writeAllWith paint format colours ds = String.join (ds.map (·.rendered paint format colours)) ++
      (Tally.ofDiagnostics ds).rendered paint format colours := by
  rw [writeAllWith, Writer.emitAll_eq]
  rfl

/-- If the texts of diagnostics hold no escape character, the plain output for them holds none, and
is what is left of the coloured output without its escape sequences. It does not matter which
sequences the painter wraps a text in. -/
theorem bare_writeAll (wraps : Wraps paint) {ds : List Diagnostic}
    (clean : ∀ d ∈ ds, ∀ text ∈ d.texts, Terminal.escape ∉ text.toList) :
    Terminal.bare (writeAllWith paint .text true ds) = writeAllWith paint .text false ds ∧
    Terminal.escape ∉ (writeAllWith paint .text false ds).toList := by
  have rows : List.Forall₂ Shows (ds.map (·.rendered paint .text true))
      (ds.map (·.rendered paint .text false)) :=
    List.forall₂_map_left_iff.mpr
      (List.forall₂_map_right_iff.mpr (List.forall₂_same.mpr fun d mem =>
      Diagnostic.shows_rendered wraps (clean d mem)))
  have shows : Shows (writeAllWith paint .text true ds) (writeAllWith paint .text false ds) := by
    rw [writeAllWith_eq, writeAllWith_eq]
    exact (Terminal.shows_join rows).append (Tally.shows_rendered wraps _)
  exact ⟨shows.bare, shows.clean⟩

/-- A finding with all that can be coloured, in texts that look like parts of escape sequences, and
a bare one. -/
def colouredFindings : List Diagnostic :=
  [{ errorId := "[1m", message := "é[0m", severity := .error, cwe := 764
     point := { file := "a.rs", line := 3, column := 1 }
     callChain := ["outer", "inner"], related := [⟨{ file := "b.rs", line := -1 }, "[31m"⟩] },
   { errorId := "", message := "", severity := .information }]

theorem bare_writeAll_findings :
    Wraps Terminal.paint ∧
    (∀ d ∈ colouredFindings, ∀ text ∈ d.texts, Terminal.escape ∉ text.toList) ∧
    writeAllWith Terminal.paint .text true colouredFindings = "\n".intercalate
      ["\x1b[1m\x1b[31merror[[1m]\x1b[0m: \x1b[1mé[0m\x1b[0m",
        "  \x1b[1m\x1b[34m-->\x1b[0m a.rs:3:1",
        "  = \x1b[1m\x1b[36mcall chain\x1b[0m: outer -> inner",
        "  = \x1b[1m\x1b[36mnote\x1b[0m: [31m",
        "    \x1b[1m\x1b[34m-->\x1b[0m b.rs:-1",
        "  = \x1b[4m\x1b[34mCWE-764\x1b[0m: https://cwe.mitre.org/data/definitions/764.html",
        "  = confidence: medium", "", "\x1b[1m\x1b[36minformation[]\x1b[0m: \x1b[1m\x1b[0m",
        "  \x1b[1m\x1b[34m-->\x1b[0m <unknown>", "  = confidence: medium", "",
        "\x1b[1m\x1b[31m1 error; 1 info (2 total)\x1b[0m", ""] ∧
    writeAllWith Terminal.paint .text false colouredFindings = "\n".intercalate
      ["error[[1m]: é[0m", "  --> a.rs:3:1", "  = call chain: outer -> inner", "  = note: [31m",
        "    --> b.rs:-1",
        "  = CWE-764: https://cwe.mitre.org/data/definitions/764.html",
        "  = confidence: medium", "",
        "information[]: ", "  --> <unknown>", "  = confidence: medium", "",
        "1 error; 1 info (2 total)", ""] ∧
    Terminal.bare (writeAllWith Terminal.paint .text true colouredFindings) =
      writeAllWith Terminal.paint .text false colouredFindings ∧
    Terminal.escape ∉ (writeAllWith Terminal.paint .text false colouredFindings).toList := by
  have clean : ∀ d ∈ colouredFindings, ∀ text ∈ d.texts, Terminal.escape ∉ text.toList := by
    decide +kernel
  exact ⟨Terminal.wraps_paint,
    clean, by decide +kernel, by decide +kernel, bare_writeAll Terminal.wraps_paint clean⟩

end Relock
