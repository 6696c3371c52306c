import Mathlib.Algebra.Group.Nat.Even
import Mathlib.Data.List.Forall2
import Relock.CallGraph.Dot
import Relock.Proofs.Source.Decoder
import Relock.Proofs.Text

/-!
# DOT text read back

A reader of DOT text takes a string to end at the first double quote that is not escaped. A
backslash escapes the character after it; an escaped quote stands for a quote, and any other escaped
character for itself and the backslash. `Dot.read` is such a reader, and `CallGraph.dotPieces` is
what a reader should find: the strings that stand in the output for names are the names.

`Dot.ReadsIf` relates a part of a text to its pieces and to the condition under which it is read so,
whatever follows. A name is read back if an even number of backslashes stands before each of its
quotes and at its end (`Dot.Legible`). The title is not escaped, so that it must have no quotes as
well.
-/

namespace Relock
namespace Dot

/-! ## Readers -/

/-- A part of a text: a character outside of strings, or a string. -/
inductive Piece where
  | mark (c : Char)
  | string (text : String)
  deriving DecidableEq, Repr

/-- Where a reader stands: outside of strings or in one, of which it holds the part that was read,
and there maybe after a backslash. -/
inductive Mode where
  | outside
  | inside (held : List Char)
  | escaped (held : List Char)

/-- The pieces of a text. There are none if a string has no end. -/
def read : Mode → List Char → Option (List Piece)
  | .outside, [] => some []
  | .inside _, [] => none
  | .escaped _, [] => none
  | .outside, c :: cs =>
    if c = '"' then read (.inside []) cs else (read .outside cs).map (.mark c :: ·)
  | .inside held, c :: cs =>
    if c = '"' then (read .outside cs).map (.string (String.ofList held) :: ·)
    else if c = '\\' then read (.escaped held) cs
    else read (.inside (held ++ [c])) cs
  | .escaped held, c :: cs => read (.inside (held ++ if c = '"' then ['"'] else ['\\', c])) cs

/-- The characters of a text without strings. -/
def marks (text : String) : List Piece := text.toList.map .mark

/-- A text between the quotes of a string. -/
def quote (text : String) : String := "\"" ++ text ++ "\""

variable {held cs rest : List Char} {c : Char} {more : List Piece}

theorem read_quote : read (.inside held)
    ('"' :: cs) = (read .outside cs).map (.string (String.ofList held) :: ·) := by
  rw [read, if_pos rfl]

theorem read_backslash : read (.inside held) ('\\' :: cs) = read (.escaped held) cs := by
  rw [read, if_neg (by decide), if_pos rfl]

theorem read_inside (quote : c ≠ '"') (backslash : c ≠ '\\') :
    read (.inside held) (c :: cs) = read (.inside (held ++ [c])) cs := by
  rw [read, if_neg quote, if_neg backslash]

theorem read_escapedQuote :
    read (.escaped held) ('"' :: cs) = read (.inside (held ++ ['"'])) cs := by
  rw [read, if_pos rfl]

theorem read_escaped (quote : c ≠ '"') :
    read (.escaped held) (c :: cs) = read (.inside (held ++ ['\\'] ++ [c])) cs := by
  rw [read, if_neg quote, List.append_assoc, List.singleton_append]

/-- What is read of a string stays its beginning. -/
theorem held_of_read {text : String} :
    (read (.inside held) cs = some (.string text :: more) → held <+: text.toList) ∧
    (read (.escaped held) cs = some (.string text :: more) → held <+: text.toList) := by
  induction cs generalizing held with
  | nil => exact ⟨fun found => absurd found (by simp only [read, reduceCtorEq, not_false_eq_true]),
      fun found => absurd found (by simp only [read, reduceCtorEq, not_false_eq_true])⟩
  | cons c cs ih =>
    constructor
    · intro found
      by_cases quote : c = '"'
      · rw [quote, read_quote] at found
        obtain ⟨_, _, same⟩ := Option.map_eq_some_iff.mp found
        have whole : text.toList = held := by
          rw [← Piece.string.inj (List.cons.inj same).1, String.toList_ofList]
        exact whole ▸ List.prefix_rfl
      · by_cases backslash : c = '\\'
        · rw [backslash, read_backslash] at found
          exact ih.2 found
        · rw [read_inside quote backslash] at found
          exact (List.prefix_append held [c]).trans (ih.1 found)
    · intro found
      rw [read] at found
      exact (List.prefix_append held _).trans (ih.1 found)

/-! ## Texts that are read back -/

/-- The number of backslashes that a text ends with. -/
def slashes (cs : List Char) : Nat := (cs.reverse.takeWhile (· = '\\')).length

theorem even_slashes_backslash : Even (slashes (cs ++ ['\\'])) ↔ ¬ Even (slashes cs) := by
  simp only [slashes, List.reverse_append, List.reverse_singleton, List.singleton_append,
    List.takeWhile_cons, decide_true, if_true, List.length_cons, Nat.even_add_one]

theorem even_slashes_other (other : c ≠ '\\') : Even (slashes (cs ++ [c])) := by
  simp only [slashes, List.reverse_append, List.reverse_singleton, List.singleton_append,
    List.takeWhile_cons, decide_eq_true_eq, if_neg other, List.length_nil, Even.zero]

/-- After `held`, an even number of backslashes stands before each quote of a text and at its
end. -/
def Closes (held cs : List Char) : Prop := ∀ front, front ++ ['"'] <+: cs ++ ['"'] →
    Even (slashes (held ++ front))

/-- An even number of backslashes stands before each quote of a text and at its end. -/
def Legible (text : String) : Prop := Closes [] text.toList

theorem closes_nil : Closes held [] ↔ Even (slashes held) := by
  constructor
  · intro closes
    have whole := closes [] List.prefix_rfl
    rwa [List.append_nil] at whole
  · intro even front start
    have empty : front = [] := List.eq_nil_of_length_eq_zero (by
      have short := start.length_le
      simp only [List.length_append, List.length_singleton, List.length_nil] at short
      omega)
    rwa [empty, List.append_nil]

theorem closes_cons : Closes held (c :: cs) ↔ (c = '"' → Even (slashes held)) ∧
    Closes (held ++ [c]) cs := by
  constructor
  · intro closes
    refine ⟨?_, fun front start => ?_⟩
    · rintro rfl
      have first := closes [] (List.cons_prefix_cons.mpr ⟨rfl, List.nil_prefix⟩)
      rwa [List.append_nil] at first
    · rw [List.append_assoc]
      exact closes (c :: front) (List.cons_prefix_cons.mpr ⟨rfl, start⟩)
  · rintro ⟨here, later⟩ front start
    cases front with
    | nil =>
      rw [List.append_nil]
      exact here (List.cons_prefix_cons.mp start).1.symm
    | cons d front =>
      obtain ⟨rfl, next⟩ := List.cons_prefix_cons.mp start
      have even := later front next
      rwa [List.append_assoc] at even

theorem closes_of_even (even : Even (slashes held)) (none : '\\' ∉ cs) : Closes held cs := by
  induction cs generalizing held with
  | nil => exact closes_nil.mpr even
  | cons c cs ih =>
    obtain ⟨here, later⟩ := not_or.mp (mt List.mem_cons.mpr none)
    exact closes_cons.mpr ⟨fun _ => even, ih (even_slashes_other (Ne.symm here)) later⟩

/-- The characters of a name between the quotes of a label. -/
def escape (cs : List Char) : List Char := cs.flatMap fun c => if c = '"' then ['\\', '"'] else [c]

theorem escape_quote : escape ('"' :: cs) = '\\' :: '"' :: escape cs := rfl

theorem escape_other (other : c ≠ '"') : escape (c :: cs) = c :: escape cs := by
  rw [escape, List.flatMap_cons, if_neg other]
  rfl

theorem escape_eq_self (none : '"' ∉ cs) : escape cs = cs := by
  induction cs with
  | nil => rfl
  | cons c cs ih =>
    obtain ⟨here, later⟩ := not_or.mp (mt List.mem_cons.mpr none)
    rw [escape_other (Ne.symm here), ih later]

/-- A string is not what begins otherwise. -/
theorem read_ne_of_held {c d : Char} (other : c ≠ d) {text : List Char} :
    read (.inside (held ++ [c])) cs ≠
    some (.string (String.ofList (held ++ d :: text)) :: more) := by
  intro found
  have start := held_of_read.1 found
  rw [String.toList_ofList, List.prefix_append_right_inj, List.cons_prefix_cons] at start
  exact other start.1

/-- An escaped name is read back exactly if its quotes and its end are legible. A reader is after a
backslash when an odd number of them was read. -/
theorem read_escape_iff (even : Even (slashes held)) (cs rest : List Char) (more : List Piece) :
    (read (.inside held) (escape cs ++ '"' :: rest) =
      some (.string (String.ofList (held ++ cs)) :: more) ↔
        Closes held cs ∧ read .outside rest = some more) ∧
    (read (.escaped held) (escape cs ++ '"' :: rest) =
      some (.string (String.ofList (held ++ '\\' :: cs)) :: more) ↔
        Closes (held ++ ['\\']) cs ∧ read .outside rest = some more) := by
  have odd {held : List Char} (even : Even (slashes held)) : ¬ Even (slashes (held ++ ['\\'])) :=
    fun next =>
    even_slashes_backslash.mp next even
  induction cs generalizing held with
  | nil =>
    rw [closes_nil, closes_nil]
    constructor
    · show read (.inside held) ('"' :: rest) = _ ↔ _
      rw [read_quote, List.append_nil]
      simp only [Option.map_eq_some_iff, List.cons.injEq, true_and, exists_eq_right, even]
    · refine iff_of_false ?_ fun closes => odd even closes.1
      show read (.escaped held) ('"' :: rest) ≠ _
      rw [read_escapedQuote]
      exact read_ne_of_held (by decide)
  | cons c cs ih =>
    rw [closes_cons, closes_cons]
    by_cases quote : c = '"'
    · subst quote
      rw [escape_quote, List.cons_append, List.cons_append]
      constructor
      · rw [read_backslash, read_escapedQuote, List.append_cons held '"' cs,
          (ih (even_slashes_other (by decide))).1]
        simp only [even, implies_true, true_and]
      · -- the backslash that was read takes the one that should escape the quote
        refine iff_of_false ?_ fun closes => odd even (closes.1.1 rfl)
        rw [read_escaped (by decide), List.append_cons held '\\' ('"' :: cs)]
        exact read_ne_of_held (by decide)
    · rw [escape_other quote, List.cons_append]
      simp only [quote, false_implies, true_and]
      by_cases backslash : c = '\\'
      · subst backslash
        constructor
        · rw [read_backslash, (ih even).2]
        · rw [read_escaped quote, List.append_cons held _ (_ :: cs),
            List.append_cons (held ++ ['\\']) _ cs, (ih (even_slashes_backslash.mpr (odd even))).1]
      · have even {held : List Char} : Even (slashes (held ++ [c])) := even_slashes_other backslash
        constructor
        · rw [read_inside quote backslash, List.append_cons held c cs, (ih even).1]
        · rw [read_escaped quote, List.append_cons held _ (c :: cs),
            List.append_cons (held ++ ['\\']) c cs, (ih even).1]

/-- A text with quotes that are not escaped is not read back. -/
theorem read_ne_of_quote (quote : '"' ∈ cs) (held rest : List Char) (more : List Piece) :
    read (.inside held) (cs ++ rest) ≠ some (.string (String.ofList (held ++ cs)) :: more) ∧
    read (.escaped held)
    (cs ++ rest) ≠ some (.string (String.ofList (held ++ '\\' :: cs)) :: more) := by
  induction cs generalizing held with
  | nil => exact absurd quote List.not_mem_nil
  | cons c cs ih =>
    rw [List.cons_append]
    by_cases here : c = '"'
    · subst here
      constructor
      · rw [read_quote]
        intro found
        obtain ⟨_, _, same⟩ := Option.map_eq_some_iff.mp found
        have short := String.ofList_injective (Piece.string.inj (List.cons.inj same).1)
        exact List.cons_ne_nil _ _ (List.append_right_eq_self.mp short.symm)
      · rw [read_escapedQuote]
        exact read_ne_of_held (by decide)
    · have later := (List.mem_cons.mp quote).resolve_left (Ne.symm here)
      constructor
      · by_cases backslash : c = '\\'
        · rw [backslash, read_backslash]
          exact (ih later _).2
        · rw [read_inside here backslash, List.append_cons held c cs]
          exact (ih later _).1
      · rw [read_escaped here, List.append_cons held _ (c :: cs),
          List.append_cons (held ++ ['\\']) c cs]
        exact (ih later _).1

/-! ## Parts of a text -/

/-- Whatever follows, a part of a text is read as some pieces exactly if a condition holds. -/
def ReadsIf (condition : Prop) (text : String) (pieces : List Piece) : Prop :=
  ∀ rest more, read .outside (text.toList ++ rest) = some (pieces ++ more) ↔ condition ∧
    read .outside rest = some more

namespace ReadsIf

variable {condition condition' : Prop} {text text' : String} {pieces pieces' : List Piece}

theorem of_iff (reads : ReadsIf condition text pieces) (same : condition ↔ condition') :
    ReadsIf condition' text pieces :=
  propext same ▸ reads

/-- A text that nothing follows. -/
theorem whole (reads : ReadsIf condition text pieces) : read .outside text.toList = some pieces ↔
    condition := by
  have alone := reads [] []
  rw [List.append_nil, List.append_nil] at alone
  exact alone.trans (and_iff_left rfl)

theorem append (first : ReadsIf condition text pieces) (second : ReadsIf condition' text' pieces') :
    ReadsIf (condition ∧ condition') (text ++ text') (pieces ++ pieces') := by
  intro rest more
  rw [String.toList_append, List.append_assoc, List.append_assoc, first, second, and_assoc]

/-- A part that is always read adds nothing to the condition. -/
theorem andThen (first : ReadsIf condition text pieces) (second : ReadsIf True text' pieces') :
    ReadsIf condition (text ++ text') (pieces ++ pieces') :=
  (first.append second).of_iff (iff_of_eq (and_true condition))

end ReadsIf

theorem readsIf_marks {text : String} (none : '"' ∉ text.toList) :
    ReadsIf True text (marks text) := by
  intro rest more
  rw [marks, true_and]
  generalize text.toList = cs at none ⊢
  induction cs with
  | nil => rfl
  | cons c cs ih =>
    obtain ⟨here, later⟩ := not_or.mp (mt List.mem_cons.mpr none)
    rw [List.cons_append, read, if_neg (Ne.symm here), List.map_cons, List.cons_append]
    simp only [Option.map_eq_some_iff, List.cons.injEq, true_and, exists_eq_right, ih later]

theorem toList_quote (text : String) : (quote text).toList = '"' :: (text.toList ++ ['"']) := by
  rw [quote, String.toList_append, String.toList_append]
  rfl

theorem readsIf_quote_escaped (name : String) :
    ReadsIf (Legible name) (quote (CallGraph.dotEscape name)) [.string name] := by
  intro rest more
  rw [toList_quote, List.cons_append, read, if_pos rfl, List.append_assoc, CallGraph.dotEscape,
    String.toList_ofList]
  have start : Even (slashes []) := Even.zero
  have reads := (read_escape_iff start name.toList rest more).1
  rwa [List.nil_append, String.ofList_toList] at reads

theorem readsIf_quote (text : String) :
    ReadsIf (Legible text ∧ '"' ∉ text.toList) (quote text) [.string text] := by
  by_cases none : '"' ∈ text.toList
  · intro rest more
    refine iff_of_false ?_ fun h => h.1.2 none
    rw [toList_quote, List.cons_append, read, if_pos rfl, List.append_assoc]
    have reads := (read_ne_of_quote none [] (['"'] ++ rest) more).1
    rwa [List.nil_append, String.ofList_toList] at reads
  · have same : CallGraph.dotEscape text = text := by
      rw [CallGraph.dotEscape]
      exact (congrArg String.ofList (escape_eq_self none)).trans String.ofList_toList
    exact (same ▸ readsIf_quote_escaped text).of_iff (and_iff_left none).symm

/-- A text with neither quotes nor backslashes is read back. -/
theorem reads_plain {text : String} (quotes : '"' ∉ text.toList)
    (backslashes : '\\' ∉ text.toList) :
    ReadsIf True (quote text) [.string text] :=
  (readsIf_quote text).of_iff (iff_of_true ⟨closes_of_even Even.zero backslashes, quotes⟩ trivial)

theorem reads_intercalate {mark : String} {texts : List String} {pieces : List (List Piece)}
    (none : '"' ∉ mark.toList) (reads : List.Forall₂ (ReadsIf True) texts pieces) :
    ReadsIf True (mark.intercalate texts) ((marks mark).intercalate pieces) := by
  induction reads with
  | nil => exact readsIf_marks (by rw [String.intercalate_nil]; decide)
  | @cons text row texts pieces here later ih =>
    cases later with
    | nil => rwa [String.intercalate_singleton, List.intercalate_singleton]
    | cons =>
      rw [String.intercalate_cons_cons, List.intercalate_cons_cons]
      exact (here.andThen (readsIf_marks none)).andThen ih

/-! ## Lines of a text -/

/-- Lines with their ends are read as some rows of pieces exactly if a condition holds. -/
def LinesIf (condition : Prop) (lines : List String) (rows : List (List Piece)) : Prop :=
  ReadsIf condition (String.join (lines.map (· ++ "\n"))) (rows.flatMap (· ++ marks "\n"))

section Lines

variable {condition condition' : Prop} {lines lines' : List String} {rows rows' : List (List Piece)}

theorem linesIf_nil : LinesIf True [] [] := by
  rw [LinesIf, List.map_nil, String.join_nil]
  exact readsIf_marks (by decide)

theorem ReadsIf.cons {line : String} {row : List Piece} (reads : ReadsIf condition line row)
    (later : LinesIf condition' lines rows) :
    LinesIf (condition ∧ condition') (line :: lines) (row :: rows) := by
  have newline : ReadsIf True "\n" _ := readsIf_marks (by decide)
  rw [LinesIf, List.map_cons, String.join_cons, List.flatMap_cons]
  exact (reads.andThen newline).append later

theorem LinesIf.append (first : LinesIf condition lines rows)
    (second : LinesIf condition' lines' rows') :
    LinesIf (condition ∧ condition') (lines ++ lines') (rows ++ rows') := by
  rw [LinesIf, List.map_append, String.join_append, List.flatMap_append]
  exact ReadsIf.append first second

theorem linesIf_map {α : Type} {condition : α → Prop} {line : α → String} {row : α → List Piece}
    (reads : ∀ x, ReadsIf (condition x) (line x) (row x)) (xs : List α) :
    LinesIf (∀ x ∈ xs, condition x) (xs.map line) (xs.map row) := by
  induction xs with
  | nil => exact linesIf_nil.of_iff (iff_of_true trivial (List.forall_mem_nil _))
  | cons x xs ih => exact ((reads x).cons ih).of_iff List.forall_mem_cons.symm

end Lines

end Dot

namespace CallGraph

open Dot (Piece marks quote Legible ReadsIf readsIf_marks LinesIf linesIf_nil linesIf_map)

/-! ## The pieces of the output -/

/-- How nodes of a kind are drawn. -/
def NodeKind.dotPieces : NodeKind → List Piece
  | function => marks "style=filled, fillcolor=" ++ [.string "#ddeeff"]
  | external => marks "style=filled, fillcolor=" ++ [.string "#fff3cd"] ++ marks ", shape=ellipse"
  | unknown => marks "style=filled, fillcolor=" ++ [.string "#ffcccc"] ++ marks ", shape=diamond"

def nodePieces (g : CallGraph) (n : Nat) : List Piece :=
  marks "  " ++ [.string s!"n{n}"] ++ marks " [label=" ++ [.string (g.nameOf n)] ++ marks ", " ++
    (g.kindOf n).dotPieces ++ marks "];"

def edgePieces (g : CallGraph) (e : CallEdge) : List Piece :=
  let line := match (g.program.op e.op).location with
    | some loc => [marks "label=" ++ [.string (toString loc.line)]]
    | none => []
  let attributes := line ++ if e.callee = sink then [marks "style=dotted, color=red"] else []
  let suffix := if attributes.isEmpty then []
    else marks " [" ++ (marks ", ").intercalate attributes ++ marks "]"
  marks "  " ++ [.string s!"n{e.caller}"] ++ marks " -> " ++ [.string s!"n{e.callee}"] ++ suffix ++
    marks ";"

/-- The pieces of the output by lines, all but the last: each label is the name or the title that it
stands for. -/
def dotRows (g : CallGraph) (title : String) : List (List Piece) :=
  [marks "digraph CallGraph \x7b", marks "  rankdir=TB;"] ++
    (if title.isEmpty then [] else [marks "  label=" ++ [.string title] ++ marks ";"]) ++
    [marks "  node [shape=box, fontname=" ++ [.string "Helvetica"] ++ marks ", fontsize=10];"] ++
    g.dotNodes.map g.nodePieces ++ g.edges.map g.edgePieces

/-- The pieces of the output. -/
def dotPieces (g : CallGraph) (title : String) : List Piece :=
  (g.dotRows title).flatMap (· ++ marks "\n") ++ marks "\x7d"

theorem reads_number (n : Nat) : ReadsIf True (quote s!"n{n}") [.string s!"n{n}"] := by
  have apart {c : Char} (first : c ∉ ['n']) (numeral : Text.isNumeral c ≠ true) :
      c ∉ (s!"n{n}").toList := by
    intro mem
    rcases List.mem_append.mp (String.toList_append ▸ mem) with front | digits
    · exact first front
    · exact numeral (Text.isNumeral_of_mem_nat digits)
  exact Dot.reads_plain (apart (by decide) (by decide)) (apart (by decide) (by decide))

theorem reads_line (n : Int) : ReadsIf True (quote (toString n)) [.string (toString n)] :=
  Dot.reads_plain (fun mem => absurd (Text.isNumeral_of_mem mem) (by decide)) fun mem =>
    absurd (Text.isNumeral_of_mem mem) (by decide)

theorem reads_style (kind : NodeKind) : ReadsIf True kind.dotStyle kind.dotPieces := by
  have fill : ReadsIf True "style=filled, fillcolor=" _ := readsIf_marks (by decide)
  have colour {text : String} (quotes : '"' ∉ text.toList) (backslashes : '\\' ∉ text.toList) :=
    fill.andThen (Dot.reads_plain quotes backslashes)
  cases kind with
  | function =>
    have spelled : NodeKind.function.dotStyle = "style=filled, fillcolor=" ++ quote "#ddeeff" := by
      decide
    rw [spelled]
    exact colour (by decide) (by decide)
  | external =>
    have shape : ReadsIf True ", shape=ellipse" _ := readsIf_marks (by decide)
    have spelled : NodeKind.external.dotStyle = "style=filled, fillcolor=" ++ quote "#fff3cd" ++
        ", shape=ellipse" := by
      decide
    rw [spelled]
    exact (colour (by decide) (by decide)).andThen shape
  | unknown =>
    have shape : ReadsIf True ", shape=diamond" _ := readsIf_marks (by decide)
    have spelled : NodeKind.unknown.dotStyle = "style=filled, fillcolor=" ++ quote "#ffcccc" ++
        ", shape=diamond" := by
      decide
    rw [spelled]
    exact (colour (by decide) (by decide)).andThen shape

theorem dotNode_eq (g : CallGraph) (n : Nat) : g.dotNode n =
    "  " ++ quote s!"n{n}" ++ " [label=" ++ quote (dotEscape (g.nameOf n)) ++ ", " ++
    (g.kindOf n).dotStyle ++ "];" := by
  have first : "  \"n" = "  " ++ "\"" ++ "n" := by decide
  have second : "\" [label=\"" = "\"" ++ " [label=" ++ "\"" := by decide
  have third : "\", " = "\"" ++ ", " := by decide
  show "  \"n" ++ toString n ++ "\" [label=\"" ++ dotEscape (g.nameOf n) ++ "\", " ++
    (g.kindOf n).dotStyle ++ "];" = _
  rw [first, second, third]
  simp only [quote, String.append_assoc]
  rfl

theorem readsIf_dotNode (g : CallGraph) (n : Nat) :
    ReadsIf (Legible (g.nameOf n)) (g.dotNode n) (g.nodePieces n) := by
  have indent : ReadsIf True "  " _ := readsIf_marks (by decide)
  have word : ReadsIf True " [label=" _ := readsIf_marks (by decide)
  have comma : ReadsIf True ", " _ := readsIf_marks (by decide)
  have close : ReadsIf True "];" _ := readsIf_marks (by decide)
  have label := (((indent.andThen (reads_number n)).andThen word).append
    (Dot.readsIf_quote_escaped (g.nameOf n))).of_iff
    (iff_of_eq (true_and _))
  rw [dotNode_eq]
  exact ((label.andThen comma).andThen (reads_style (g.kindOf n))).andThen close

/-- The attributes of an edge, if it has any. -/
theorem reads_attributes {texts : List String} {pieces : List (List Piece)}
    (reads : List.Forall₂ (ReadsIf True) texts pieces) :
    ReadsIf True (if texts.isEmpty then "" else " [" ++ ", ".intercalate texts ++ "]")
      (if pieces.isEmpty then []
        else marks " [" ++ (marks ", ").intercalate pieces ++ marks "]") := by
  have first : ReadsIf True " [" _ := readsIf_marks (by decide)
  have last : ReadsIf True "]" _ := readsIf_marks (by decide)
  have comma : '"' ∉ ", ".toList := by decide
  have whole := (first.andThen (Dot.reads_intercalate comma reads)).andThen last
  have empty : ReadsIf True "" (marks "") := readsIf_marks (by decide)
  cases reads with
  | nil => exact empty
  | cons => exact whole

theorem dotEdge_eq (m n : Nat) (attributes : String) : s!"  \"n{m}\" -> \"n{n}\"{attributes};" =
    "  " ++ quote s!"n{m}" ++ " -> " ++ quote s!"n{n}" ++ attributes ++ ";" := by
  apply String.toList_injective
  simp only [String.toList_append, Dot.toList_quote, List.append_assoc, List.cons_append]
  rfl

theorem reads_dotEdge (g : CallGraph) (e : CallEdge) :
    ReadsIf True (g.dotEdge e) (g.edgePieces e) := by
  have indent : ReadsIf True "  " _ := readsIf_marks (by decide)
  have arrow : ReadsIf True " -> " _ := readsIf_marks (by decide)
  have close : ReadsIf True ";" _ := readsIf_marks (by decide)
  have word : ReadsIf True "label=" _ := readsIf_marks (by decide)
  have dotted : ReadsIf True "style=dotted, color=red" _ := readsIf_marks (by decide)
  have front := ((indent.andThen (reads_number e.caller)).andThen arrow).andThen
    (reads_number e.callee)
  have ends {texts : List String} {pieces : List (List Piece)}
      (reads : List.Forall₂ (ReadsIf True) texts pieces) :=
    (front.andThen (reads_attributes reads)).andThen close
  unfold dotEdge edgePieces
  rw [dotEdge_eq]
  refine ends (List.rel_append ?_ ?_)
  · cases (g.program.op e.op).location with
    | none => exact .nil
    | some loc =>
      have spelled : s!"label=\"{loc.line}\"" = "label=" ++ quote (toString loc.line) := by
        apply String.toList_injective
        simp only [String.toList_append, Dot.toList_quote, List.append_assoc]
        rfl
      refine .cons ?_ .nil
      rw [spelled]
      exact word.andThen (reads_line loc.line)
  · split
    · exact .cons dotted .nil
    · exact .nil

/-! ## The whole output -/

theorem linesIf_title (title : String) : LinesIf (Legible title ∧ '"' ∉ title.toList)
    (if title.isEmpty then [] else [s!"  label=\"{title}\";"])
    (if title.isEmpty then [] else [marks "  label=" ++ [.string title] ++ marks ";"]) := by
  split
  next empty =>
    obtain rfl : title = "" := String.isEmpty_iff.mp empty
    have legible : Legible "" := Dot.closes_of_even Even.zero (by decide)
    exact linesIf_nil.of_iff (iff_of_true trivial ⟨legible, by decide⟩)
  next =>
    have spelled : s!"  label=\"{title}\";" = "  label=" ++ quote title ++ ";" := by
      apply String.toList_injective
      simp only [String.toList_append, Dot.toList_quote, List.append_assoc, List.cons_append]
      rfl
    have word : ReadsIf True "  label=" _ := readsIf_marks (by decide)
    have close : ReadsIf True ";" _ := readsIf_marks (by decide)
    have label := (word.append (Dot.readsIf_quote title)).andThen close
    rw [spelled]
    exact (label.cons linesIf_nil).of_iff (by rw [true_and, and_true])

theorem reads_fonts : ReadsIf True "  node [shape=box, fontname=\"Helvetica\", fontsize=10];"
    (marks "  node [shape=box, fontname=" ++ [.string "Helvetica"] ++ marks ", fontsize=10];") := by
  have spelled : "  node [shape=box, fontname=\"Helvetica\", fontsize=10];" =
    "  node [shape=box, fontname=" ++ quote "Helvetica" ++ ", fontsize=10];" := by decide
  have word : ReadsIf True "  node [shape=box, fontname=" _ := readsIf_marks (by decide)
  have size : ReadsIf True ", fontsize=10];" _ := readsIf_marks (by decide)
  rw [spelled]
  exact (word.andThen (Dot.reads_plain (by decide) (by decide))).andThen size

/-- The name of the sink can be read back, so that the names of the functions decide. -/
theorem legible_dotNodes (g : CallGraph) :
    (∀ n ∈ g.dotNodes, Legible (g.nameOf n)) ↔ ∀ f ∈ g.nodes, Legible (g.nameOf f) := by
  have unknown : Legible (g.nameOf sink) :=
    Dot.closes_of_even Even.zero (by rw [nameOf, if_pos rfl]; decide)
  rw [dotNodes, List.forall_mem_append]
  refine and_iff_left ?_
  split
  · exact List.forall_mem_nil _
  · exact List.forall_mem_singleton.mpr unknown

/-- The output is read back exactly if the title and the names can be. -/
theorem readsIf_dot (g : CallGraph) (title : String) :
    ReadsIf ((Legible title ∧ '"' ∉ title.toList) ∧ ∀ f ∈ g.nodes, Legible (g.nameOf f))
    (g.dot title)
      (g.dotPieces title) := by
  have first : ReadsIf True "digraph CallGraph \x7b" _ := readsIf_marks (by decide)
  have second : ReadsIf True "  rankdir=TB;" _ := readsIf_marks (by decide)
  have last : ReadsIf True "\x7d" _ := readsIf_marks (by decide)
  have head := (first.cons (second.cons linesIf_nil)).append (linesIf_title title)
  have nodes := (linesIf_map (readsIf_dotNode g) g.dotNodes).of_iff (legible_dotNodes g)
  have edges := linesIf_map (reads_dotEdge g) g.edges
  have rows := ((head.append (reads_fonts.cons linesIf_nil)).append nodes).append edges
  rw [dot, Text.intercalate_newline]
  refine (ReadsIf.andThen rows last).of_iff ?_
  simp only [true_and, and_true, implies_true]

/-- The output is read as the pieces that it should be exactly if neither the title nor the names
have an odd number of backslashes before a quote or at their end, and the title has no quotes. -/
theorem read_dot_iff (g : CallGraph) (title : String) :
    Dot.read .outside (g.dot title).toList = some (g.dotPieces title) ↔
      (Legible title ∧ '"' ∉ title.toList) ∧ ∀ f ∈ g.nodes, Legible (g.nameOf f) :=
  (readsIf_dot g title).whole

end CallGraph

/-- A function calls another; their names are plain. -/
def plainText : String :=
  "(module plain (function \"f\" (params) (block a (call _ void \"g\") (ret))))"

/-- The name of a function ends with a backslash. -/
def slashedText : String := "(module slashed (function \"f\\\\\" (params) (block a (ret))))"

set_option maxRecDepth 4000 in
/-- A title with quotes makes the output of a plain program read otherwise, and so does a name that
ends with a backslash. -/
theorem read_dot_misread : (∃ p, Program.load "plain" plainText = .ok p ∧
      p.callGraph.nodes.map p.callGraph.nameOf = ["f", "g"] ∧
      Dot.read .outside (p.callGraph.dot "say \"hi\"").toList ≠
      some (p.callGraph.dotPieces "say \"hi\"")) ∧
    ∃ p, Program.load "slashed" slashedText = .ok p ∧
    p.callGraph.nodes.map p.callGraph.nameOf = ["f\\"] ∧
      Dot.read .outside (p.callGraph.dot "").toList ≠ some (p.callGraph.dotPieces "") := by
  constructor
  · obtain ⟨p, loaded, checked⟩ : ∃ p, Program.load "plain" plainText = .ok p ∧
        decide (p.callGraph.nodes.map p.callGraph.nameOf = ["f", "g"]) = true :=
      Program.exists_of_load rfl (by decide +kernel)
    refine ⟨p, loaded, of_decide_eq_true checked, fun same => ?_⟩
    exact ((p.callGraph.readsIf_dot "say \"hi\"").whole.mp same).1.2 (by decide)
  · obtain ⟨p, loaded, checked⟩ : ∃ p, Program.load "slashed" slashedText = .ok p ∧
        decide (p.callGraph.nodes.map p.callGraph.nameOf = ["f\\"]) = true :=
      Program.exists_of_load rfl (by decide +kernel)
    have names := of_decide_eq_true checked
    refine ⟨p, loaded, names, fun same => ?_⟩
    obtain ⟨_, legible⟩ := (p.callGraph.readsIf_dot "").whole.mp same
    obtain ⟨f, node, name⟩ :=
      List.mem_map.mp (names ▸ List.mem_cons_self : "f\\" ∈
        p.callGraph.nodes.map p.callGraph.nameOf)
    have even := (name ▸ legible f node) ['f', '\\'] List.prefix_rfl
    exact absurd even (by decide)

end Relock
