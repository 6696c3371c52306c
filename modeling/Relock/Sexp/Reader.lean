import Relock.Sexp.Basic
import Relock.Number.Literal

/-!
# Reading s-expressions

`Sexp.read` reads a text that holds exactly one form. A level of the text is a row of items that
ends at a closing bracket of either kind or at the end of the text; `readItems` reads one level and
hands back what follows it, and whoever opened the level checks the bracket found there. A quote
mark takes the rest of its level: the first form after it is quoted, the others follow it.
-/

namespace Relock.Sexp

/-- Why a text is not one form. -/
inductive ReadError where
  /-- A string runs to the end of the text. -/
  | openString
  /-- The text ends right after a backslash. -/
  | openEscape
  /-- A bracket is closed by another character, or never. -/
  | unclosed (expected : Char) (found : Option Char)
  /-- A bracket closes that nothing opened; `rest` starts with it. -/
  | unopened (rest : String)
  /-- Nothing follows the quote mark at this place. -/
  | openQuote (position : Nat)
  /-- The text holds no form, or several. -/
  | notOne

/-- The wording of each reading error. -/
def ReadError.message : ReadError → String
  | openString => "'NoneType' object has no attribute 'start'"
  | openEscape => "string index out of range"
  | unclosed expected found =>
    s!"Not enough closing brackets. Expected {Text.quoted expected.toString} " ++
      "to be the last letter in the sexp. Got: " ++ (match found with
        | some c => Text.quoted c.toString
        | none => "None")
  | unopened rest =>
    "Too many closing brackets. Expected no character left in the sexp. Got: " ++ Text.quoted rest
  | openQuote position => s!"No s-exp is found after an apostrophe at position {position}"
  | notOne => ""

/-! ## Atoms and strings -/

/-- What an escaped character of a string stands for; an unknown escape keeps its backslash. -/
def stringEscape : Char → List Char
  | '\\' => ['\\']
  | '"' => ['"']
  | 'b' => ['\x08']
  | 'f' => ['\x0c']
  | 'n' => ['\n']
  | 'r' => ['\r']
  | 't' => ['\t']
  | c => ['\\', c]

/-- Reads a string after its opening quote: its characters, and the text after the closing one. -/
def readString : List Char → Except ReadError (List Char × List Char)
  | [] => .error .openString
  | '"' :: cs => .ok ([], cs)
  | '\\' :: [] => .error .openEscape
  | '\\' :: c :: cs => do
    let (text, rest) ← readString cs
    return (stringEscape c ++ text, rest)
  | c :: cs => do
    let (text, rest) ← readString cs
    return (c :: text, rest)

/-- The characters that an escape inside an atom gives without the backslash. -/
def isAtomEscape (c : Char) : Bool :=
  "\\'`\"()[] ,?;#".toList.contains c

/-- The characters that end an atom. -/
def endsAtom (c : Char) : Bool :=
  Text.isBlank c || "\"()[];".toList.contains c

/-- Reads an atom: its characters with the escapes resolved, and the text that follows. -/
def readAtom : List Char → Except ReadError (List Char × List Char)
  | [] => .ok ([], [])
  | '\\' :: [] => .error .openEscape
  | '\\' :: c :: cs => do
    let (token, rest) ← readAtom cs
    return (if isAtomEscape c then c :: token else '\\' :: c :: token, rest)
  | c :: cs =>
    if endsAtom c then .ok ([], c :: cs)
    else do
      let (token, rest) ← readAtom cs
      return (c :: token, rest)

/-- An atom is an integer if it spells one, else a real if it spells one, else a symbol. -/
def ofAtom (token : String) : Sexp :=
  match Number.integer? token with
  | some n => int n
  | none => match Number.real? token with
    | some x => real x
    | none => symbol token

/-! ## Levels -/

/-- The text after the current line. -/
def afterLine (cs : List Char) : List Char :=
  (cs.dropWhile (· ≠ '\n')).drop 1

/-- Takes the bracket that has to close a level. -/
def closing (bracket : Char) : List Char → Except ReadError (List Char)
  | [] => .error (.unclosed bracket none)
  | c :: cs => if c = bracket then .ok cs else .error (.unclosed bracket (some c))

/-- Reads the items of one level, up to a closing bracket or the end, and gives what follows. Each
round takes a character away, so the length of the text and one more is fuel enough. `total` is the
length of the whole text, which turns what is left into a position. -/
def readItems (total : Nat) : (fuel : Nat) → List Char → Except ReadError (List Sexp × List Char)
  | 0, cs => .ok ([], cs)
  | _ + 1, [] => .ok ([], [])
  | fuel + 1, c :: cs =>
    if Text.isBlank c then readItems total fuel cs
    else if c = ';' then readItems total fuel (afterLine cs)
    else if c = ')' || c = ']' then .ok ([], c :: cs)
    else if c = '"' then do
      let (text, rest) ← readString cs
      let (items, rest) ← readItems total fuel rest
      return (string (String.ofList text) :: items, rest)
    else if c = '(' then do
      let (inner, rest) ← readItems total fuel cs
      let rest ← closing ')' rest
      let (items, rest) ← readItems total fuel rest
      return (list inner :: items, rest)
    else if c = '[' then do
      let (inner, rest) ← readItems total fuel cs
      let rest ← closing ']' rest
      let (items, rest) ← readItems total fuel rest
      return (brackets inner :: items, rest)
    else if c = '\'' then do
      match ← readItems total fuel cs with
      | ([], _) => throw (.openQuote (total - (cs.length + 1)))
      | (item :: items, rest) => return (quoted item :: items, rest)
    else do
      let (token, rest) ← readAtom (c :: cs)
      let (items, rest) ← readItems total fuel rest
      return (ofAtom (String.ofList token) :: items, rest)

/-- Reads a text that holds exactly one form. -/
def read (text : String) : Except ReadError Sexp :=
  let cs := text.toList
  match readItems cs.length (cs.length + 1) cs with
  | .error e => .error e
  | .ok ([form], []) => .ok form
  | .ok (_, []) => .error .notOne
  | .ok (_, rest) => .error (.unopened (String.ofList rest))

/-- A reader gives the form of a text, or fails for a reason. -/
abbrev Reader := String → Except String Sexp

/-- Reading, with the wording of what goes wrong. -/
def reader : Reader := fun text => (read text).mapError ReadError.message

end Relock.Sexp
