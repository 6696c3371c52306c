import Relock.Text.Quoted

/-!
# UTF-8 text files

Decodes the bytes of a file. The decoder reads byte by byte and is either between characters or
inside one; a byte that cannot stand where it does is refused with the position of the character it
spoils and the bytes of it that were read. Only shortest encodings of characters are taken, so no
surrogates and nothing beyond the last plane. In decoded text every line end is a line feed.
-/

namespace Relock.Text

/-- What is wrong with a byte sequence. -/
inductive Utf8Fault where
  | invalidStart
  | invalidContinuation
  | unexpectedEnd
  deriving DecidableEq, Repr, Inhabited

def Utf8Fault.message : Utf8Fault → String
  | invalidStart => "invalid start byte"
  | invalidContinuation => "invalid continuation byte"
  | unexpectedEnd => "unexpected end of data"

/-- A fault with the bytes it concerns: where they start, how many there are and the first of
them. -/
structure Utf8Error where
  fault : Utf8Fault
  start : Nat
  count : Nat
  first : Nat
  deriving DecidableEq, Repr, Inhabited

def Utf8Error.message (e : Utf8Error) : String :=
  let bytes :=
    if e.count = 1 then s!"byte 0x{String.ofList (hexDigits 2 e.first)} in position {e.start}"
    else s!"bytes in position {e.start}-{e.start + e.count - 1}"
  s!"'utf-8' codec can't decode {bytes}: {e.fault.message}"

/-- A character of which some bytes were read: the first byte and its position, how many were read
and how many are missing, the bytes that may come next, and the bits so far. -/
structure Unfinished where
  first : Nat
  start : Nat
  read : Nat
  missing : Nat
  low : Nat := 0x80
  high : Nat := 0xbf
  bits : Nat
  deriving Inhabited

/-- The state of the decoder: the position, the characters so far with the last first, and the
character in hand. -/
structure Utf8Decoder where
  position : Nat := 0
  text : List Char := []
  pending : Option Unfinished := none
  deriving Inhabited

namespace Utf8Decoder

/-- A byte between characters. -/
def start (d : Utf8Decoder) (b : Nat) : Except Utf8Error Utf8Decoder :=
  let next := { d with position := d.position + 1 }
  let more (missing bits low high : Nat) : Except Utf8Error Utf8Decoder :=
    .ok { next with pending := some { first := b, start := d.position, read := 1,
                                      missing := missing, low := low, high := high, bits := bits } }
  if b < 0x80 then .ok { next with text := Char.ofNat b :: d.text }
  else if b < 0xc2 || 0xf4 < b then
    .error { fault := .invalidStart, start := d.position, count := 1, first := b }
  else if b < 0xe0 then more 1 (b - 0xc0) 0x80 0xbf
  else if b < 0xf0 then
    more 2 (b - 0xe0) (if b = 0xe0 then 0xa0 else 0x80) (if b = 0xed then 0x9f else 0xbf)
  else more 3 (b - 0xf0) (if b = 0xf0 then 0x90 else 0x80) (if b = 0xf4 then 0x8f else 0xbf)

/-- A byte inside a character. -/
def extend (d : Utf8Decoder) (c : Unfinished) (b : Nat) : Except Utf8Error Utf8Decoder :=
  if b < c.low || c.high < b then
    .error { fault := .invalidContinuation, start := c.start, count := c.read, first := c.first }
  else
    let next := { d with position := d.position + 1 }
    let bits := c.bits * 64 + (b - 0x80)
    if c.missing = 1 then .ok { next with text := Char.ofNat bits :: d.text, pending := none }
    else .ok { next with pending := some { first := c.first, start := c.start, read := c.read + 1,
                                           missing := c.missing - 1, bits := bits } }

/-- Reads a byte. -/
def step (d : Utf8Decoder) (b : UInt8) : Except Utf8Error Utf8Decoder :=
  match d.pending with
  | none => d.start b.toNat
  | some c => d.extend c b.toNat

/-- The text at the end of the bytes. -/
def finish (d : Utf8Decoder) : Except Utf8Error (List Char) :=
  match d.pending with
  | none => .ok d.text.reverse
  | some c =>
    .error { fault := .unexpectedEnd, start := c.start, count := c.read, first := c.first }

end Utf8Decoder

/-- Decodes bytes. -/
def decodeUtf8 (bytes : List UInt8) : Except Utf8Error (List Char) := do
  (← bytes.foldlM Utf8Decoder.step {}).finish

/-- Turns line ends of other systems into line feeds. -/
def unifyLineEnds : List Char → List Char
  | [] => []
  | '\r' :: '\n' :: cs => '\n' :: unifyLineEnds cs
  | c :: cs => (if c = '\r' then '\n' else c) :: unifyLineEnds cs

/-- The text of a file. -/
def fileText (bytes : List UInt8) : Except Utf8Error String :=
  (decodeUtf8 bytes).map fun cs => String.ofList (unifyLineEnds cs)

end Relock.Text
