import Relock.Diagnostic
import Relock.Report.Terminal
import Relock.Text.Quoted

/-!
# Writing diagnostics

Diagnostics are written as text for people, as records one to a line, or one to a line in the style
of compilers. The text form ends with a count of the findings by severity; it may be coloured, by
any painter. A writer gives the text that each of its operations adds to the output.
-/

namespace Relock

/-- The output formats. -/
inductive Format where
  | text | json | gcc
  deriving DecidableEq, Repr, Inhabited

def Format.name : Format → String
  | text => "text"
  | json => "json"
  | gcc => "gcc"

/-- Every format. -/
def Format.all : List Format := [text, json, gcc]

def Format.ofName? (word : String) : Option Format := all.find? fun f => f.name = word

/-- The wording for a format that does not exist. -/
def Format.unknownMessage (word : String) : String :=
  s!"unknown output format {Text.quoted word}; expected one of ('text', 'json', 'gcc')"

/-- The findings counted by severity. -/
structure Tally where
  errors : Nat := 0
  warnings : Nat := 0
  informations : Nat := 0
  deriving DecidableEq, Repr, Inhabited

namespace Tally

def add (t : Tally) : Severity → Tally
  | .error => { t with errors := t.errors + 1 }
  | .warning => { t with warnings := t.warnings + 1 }
  | .information => { t with informations := t.informations + 1 }

def total (t : Tally) : Nat := t.errors + t.warnings + t.informations

/-- A count with its noun, if there is anything to count. -/
def counted (n : Nat) (noun : String) : List String :=
  if n = 0 then [] else [s!"{n} {noun}" ++ if n = 1 then "" else "s"]

/-- The counts in one line. -/
def summary (t : Tally) : String :=
  let parts := counted t.errors "error" ++ counted t.warnings "warning" ++
    if t.informations = 0 then [] else [s!"{t.informations} info"]
  if parts.isEmpty then "no double locks found"
    else "; ".intercalate parts ++ s!" ({t.total} total)"

end Tally

/-- Painted text, or plain text when colours are off. -/
def tinted (paint : Terminal.Painter) (colours : Bool) (style : Terminal.Attribute)
    (colour : Option Terminal.Colour) (text : String) : String :=
  if colours then paint style colour text else text

def Severity.colour : Severity → Terminal.Colour
  | error => .red
  | warning => .yellow
  | information => .cyan

namespace Diagnostic

/-- A marked remark under a diagnostic. -/
def remark (label text : String) : String := "  = " ++ label ++ ": " ++ text

/-- The lines of the text form. -/
def textLines (paint : Terminal.Painter) (colours : Bool) (d : Diagnostic) : List String :=
  let tint := tinted paint colours
  let arrow := tint .bold (some .blue) "-->"
  let label := tint .bold (some .cyan)
  let head := tint .bold (some d.severity.colour) s!"{d.severity.name}[{d.errorId}]"
  let message := tint .bold none d.message
  let chain := if d.callChain.length ≤ 1 then []
    else [remark (label "call chain") (" -> ".intercalate d.callChain)]
  let notes := d.related.flatMap fun r =>
    [remark (label "note") r.message, s!"    {arrow} {r.point.text}"]
  let cwe := if d.cwe = 0 then []
    else [remark (tint .underline (some .blue) s!"CWE-{d.cwe}")
      s!"https://cwe.mitre.org/data/definitions/{d.cwe}.html"]
  [s!"{head}: {message}", s!"  {arrow} {d.point.text}"] ++ chain ++ notes ++ cwe ++
    [remark "confidence" d.confidence.name, ""]

/-- The text that a diagnostic adds to the output. -/
def rendered (paint : Terminal.Painter) (format : Format) (colours : Bool) (d : Diagnostic) :
    String :=
  match format with
  | .text => "\n".intercalate (d.textLines paint colours) ++ "\n"
  | .json => d.recordLine ++ "\n"
  | .gcc =>
    let notes := d.related.map fun r => s!"{r.point.text}: note: {r.message}\n"
    d.compilerLine ++ "\n" ++ String.join notes

end Diagnostic

/-- The last line of the output. -/
def Tally.rendered (paint : Terminal.Painter) (format : Format) (colours : Bool) (t : Tally) :
    String :=
  match format with
  | .text =>
    let colour : Terminal.Colour :=
      if t.errors ≠ 0 then .red else if t.total ≠ 0 then .yellow else .green
    tinted paint colours .bold (some colour) t.summary ++ "\n"
  | _ => ""

/-- Output in progress. Only the text form is coloured. -/
structure Writer where
  format : Format
  colours : Bool
  paint : Terminal.Painter := Terminal.paint
  tally : Tally := {}
  finished : Bool := false
  deriving Inhabited

namespace Writer

/-- Writes a diagnostic. -/
def emit (w : Writer) (d : Diagnostic) : String × Writer :=
  (d.rendered w.paint w.format w.colours, { w with tally := w.tally.add d.severity })

/-- Writes diagnostics in order. -/
def emitAll (w : Writer) : List Diagnostic → String × Writer
  | [] => ("", w)
  | d :: ds =>
    let (text, w) := w.emit d
    let (more, w) := emitAll w ds
    (text ++ more, w)

/-- Writes the last line, once. -/
def finish (w : Writer) : String × Writer :=
  if w.finished then ("", w)
  else (w.tally.rendered w.paint w.format w.colours, { w with finished := true })

end Writer

/-- The whole output for some diagnostics. -/
def writeAllWith (paint : Terminal.Painter) (format : Format) (colours : Bool)
    (ds : List Diagnostic) : String :=
  let (text, w) := Writer.emitAll { format := format, colours := colours, paint := paint } ds
  text ++ w.finish.1

/-- The whole output, with the usual painter. -/
def writeAll (format : Format) (colours : Bool) (ds : List Diagnostic) : String :=
  writeAllWith Terminal.paint format colours ds

end Relock
