import Relock.Text.Digit

/-!
# Command line words

How the words of a command line are told apart. A word is an option if it starts with a hyphen and
is neither a lone hyphen, nor a negative number, nor unknown with a blank in it; after the word `--`
no word is an option. A long option may be cut short as long as it stays unique, and its value may
follow an equals sign; short options may be written together, and the value of a short option may
follow directly.

A `Grammar` lists the options of one level of the command line. `Grammar.read` applies the options
in order and gives the first free word, or for a level with commands that word and all that follow
it, to the level's operand. Words that fit nowhere are left over.
-/

namespace Relock.Command

/-- Why the words were not all read. -/
inductive Stop where
  /-- The words make no sense. -/
  | misuse
  /-- The help text is asked for. -/
  | help
  /-- The version is asked for. -/
  | version
  deriving DecidableEq, Repr, Inhabited

/-- One level of a command line: its options by name, which of them take a value, what an option and
the operand do, and whether the operand takes all words from its first on. -/
structure Grammar (κ σ : Type) where
  options : List (String × κ)
  takesValue : κ → Bool
  applyOption : κ → Option String → σ → Except Stop σ
  applyOperand : List String → σ → Except Stop σ
  takesRest : Bool

/-- A value written in the same word as its option; `marked` if after an equals sign. -/
structure Attached where
  marked : Bool
  text : String
  deriving DecidableEq, Repr, Inhabited

/-- A word of the command line. -/
inductive Word (κ : Type) where
  | free (text : String)
  /-- The word `--`. -/
  | separator
  | option (raw name : String) (key : κ) (value : Option Attached)
  /-- A word that looks like an option and is none of this level. -/
  | unknown (raw : String)

def Word.raw {κ : Type} : Word κ → String
  | free text => text
  | separator => "--"
  | option raw _ _ _ => raw
  | unknown raw => raw

/-! ## Telling words apart -/

/-- The text before the first equals sign and, if there is one, the text after it. -/
def splitEquals (text : String) : String × Option String :=
  let cs := text.toList
  let name := String.ofList (cs.takeWhile (· ≠ '='))
  match cs.dropWhile (· ≠ '=') with
  | [] => (name, none)
  | _ :: value => (name, some (String.ofList value))

/-- A negative decimal, whole or with a point before its last digits; a line feed at the end is not
looked at. -/
def isNegativeNumber (text : String) : Bool :=
  match text.toList with
  | '-' :: cs =>
    let cs := if cs.getLast? = some '\n' then cs.dropLast else cs
    let isDigit (c : Char) : Bool := (Text.digitValue? c).isSome
    match cs.dropWhile isDigit with
    | [] => !cs.isEmpty
    | '.' :: digits => !digits.isEmpty && digits.all isDigit
    | _ => false
  | _ => false

/-- The option that a name stands for. -/
def Grammar.named? {κ σ : Type} (g : Grammar κ σ) (name : String) : Option κ :=
  (g.options.find? fun o => o.1 = name).map (·.2)

/-- The readings of a word that names no option in full: a long option cut short, or a short option
with its value. -/
def Grammar.readings {κ σ : Type} (g : Grammar κ σ) (raw : String) :
    List (String × κ × Option Attached) :=
  match raw.toList with
  | '-' :: '-' :: _ =>
    let (start, value) := splitEquals raw
    (g.options.filter fun o => start.toList.isPrefixOf o.1.toList).map fun o =>
      (o.1, o.2, value.map (⟨true, ·⟩))
  | '-' :: c :: rest =>
    (g.options.filter fun o => o.1 = String.ofList ['-', c]).map fun o =>
      (o.1, o.2, some ⟨false, String.ofList rest⟩)
  | _ => []

/-- Tells what a word is, before any separator. A word that several options fit is misuse. -/
def Grammar.word {κ σ : Type} (g : Grammar κ σ) (raw : String) : Except Stop (Word κ) :=
  if !raw.toList.head?.any (· = '-') then .ok (.free raw)
  else match g.named? raw with
    | some key => .ok (.option raw raw key none)
    | none =>
      if raw = "-" then .ok (.free raw)
      else
        let (name, value) := splitEquals raw
        match value, g.named? name with
        | some text, some key => .ok (.option raw name key (some ⟨true, text⟩))
        | _, _ =>
          match g.readings raw with
          | [(name, key, value)] => .ok (.option raw name key value)
          | _ :: _ => .error .misuse
          | [] =>
            if isNegativeNumber raw || raw.toList.contains ' ' then .ok (.free raw)
              else .ok (.unknown raw)

/-- Tells all words apart. -/
def Grammar.words {κ σ : Type} (g : Grammar κ σ) : List String → Except Stop (List (Word κ))
  | [] => .ok []
  | raw :: raws =>
    if raw = "--" then .ok (.separator :: raws.map .free)
    else do
      let word ← g.word raw
      return word :: (← g.words raws)

/-! ## Options in one word -/

/-- The options written in one word, with their values. An option at the end may wait for its value
in the next word, and letters after a short option may be none. -/
structure Bundle (κ : Type) where
  options : List (κ × Option String) := []
  waiting : Option κ := none
  leftOver : Option String := none

/-- An option that stands alone in its word or at the end of it. -/
def Grammar.single {κ σ : Type} (g : Grammar κ σ) (key : κ) : Bundle κ :=
  if g.takesValue key then { waiting := some key } else { options := [(key, none)] }

/-- An option with more text in its word. The text is its value if it takes one; for a short option
that takes none it is more short options, unless it is `marked` as a value. A short option of a row
is `inRow`, and there an equals sign marks what follows it. -/
def Grammar.bundle {κ σ : Type} (g : Grammar κ σ) (isShort : Bool) : (key : κ) →
    (marked inRow : Bool) → (text : List Char) → Except Stop (Bundle κ)
  | key, marked, inRow, text =>
    let signed := inRow && text.head? = some '='
    if g.takesValue key then
      .ok { options := [(key, some (String.ofList (if signed then text.drop 1 else text)))] }
    else if !isShort || marked || signed then .error .misuse
    else match text with
      | [] => .error .misuse
      | c :: rest =>
        if c = '-' then .error .misuse
        else match g.named? (String.ofList ['-', c]) with
          | none =>
            .ok { options := [(key, none)], leftOver := some (String.ofList ('-' :: c :: rest)) }
          | some next => do
            let more ← if rest.isEmpty then .ok (g.single next)
                else g.bundle isShort next false true rest
            return { more with options := (key, none) :: more.options }

/-- The options of a word that starts with the option `name`. -/
def Grammar.bundleOf {κ σ : Type} (g : Grammar κ σ) (name : String) (key : κ) : Option Attached →
    Except Stop (Bundle κ)
  | none => .ok (g.single key)
  | some value => g.bundle (name.length = 2) key value.marked false value.text.toList

/-! ## Applying words -/

/-- What a level has read: its state, whether the operand is still open, and the words left over. -/
structure Reading (σ : Type) where
  state : σ
  isOpen : Bool := true
  leftOver : List String := []

/-- Leaves a word over. -/
def Reading.leave {σ : Type} (r : Reading σ) (raw : String) : Reading σ :=
  { r with leftOver := r.leftOver ++ [raw] }

/-- Applies options in order. -/
def Grammar.applyOptions {κ σ : Type} (g : Grammar κ σ) (r : Reading σ)
    (options : List (κ × Option String)) : Except Stop (Reading σ) := do
  return { r with state := ← options.foldlM (fun state (key, value) =>
    g.applyOption key value state) r.state }

/-- Gives the operand its words. -/
def Grammar.fill {κ σ : Type} (g : Grammar κ σ) (r : Reading σ) (words : List String) :
    Except Stop (Reading σ) := do
  return { r with state := ← g.applyOperand words r.state, isOpen := false }

/-- Applies words in order. A separator next to the operand belongs to it. -/
def Grammar.apply {κ σ : Type} (g : Grammar κ σ) : List (Word κ) → Reading σ →
    Except Stop (Reading σ)
  | [], r => .ok r
  | .unknown raw :: words, r => g.apply words (r.leave raw)
  | .option _ name key value :: words, r => do
    let bundle ← g.bundleOf name key value
    let r := match bundle.leftOver with
      | some raw => r.leave raw
      | none => r
    match bundle.waiting with
    | none => g.apply words (← g.applyOptions r bundle.options)
    | some key => match words with
      | .free text :: words =>
        g.apply words (← g.applyOptions r (bundle.options ++ [(key, some text)]))
      | _ => .error .misuse
  | .separator :: words, r =>
    match words with
    | .free text :: words =>
      if !r.isOpen then g.apply words ((r.leave "--").leave text)
      else if g.takesRest then g.fill r ("--" :: text :: words.map Word.raw)
      else do g.apply words (← g.fill r [text])
    | words => g.apply words (r.leave "--")
  | .free text :: words, r =>
    if !r.isOpen then g.apply words (r.leave text)
    else if g.takesRest then g.fill r (text :: words.map Word.raw)
    else match words with
      | .separator :: words => do g.apply words (← g.fill r [text])
      | words => do g.apply words (← g.fill r [text])

/-- Reads the words of a level from a first state. -/
def Grammar.read {κ σ : Type} (g : Grammar κ σ) (raws : List String) (state : σ) :
    Except Stop (Reading σ) := do
  g.apply (← g.words raws) { state := state }

end Relock.Command
