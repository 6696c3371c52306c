/-!
# Colours of terminal text

Coloured text stands between escape sequences. A `Painter` puts them there; the usual one writes the
attribute first, then the colour, and after the text the sequence that ends both.
-/

namespace Relock.Terminal

/-- The colours in use. -/
inductive Colour where
  | red | green | yellow | blue | cyan
  deriving DecidableEq, Repr, Inhabited

def Colour.code : Colour → Nat
  | red => 31
  | green => 32
  | yellow => 33
  | blue => 34
  | cyan => 36

/-- The attributes in use. -/
inductive Attribute where
  | bold | underline
  deriving DecidableEq, Repr, Inhabited

def Attribute.code : Attribute → Nat
  | bold => 1
  | underline => 4

/-- A way to give a text an attribute and, if given, a colour. -/
abbrev Painter := Attribute → Option Colour → String → String

/-- The escape sequence of a code. -/
def sequence (code : Nat) : String := s!"\x1b[{code}m"

/-- The usual painter. -/
def paint : Painter := fun style colour text =>
  let coloured := match colour with
    | some c => sequence c.code ++ text
    | none => text
  sequence style.code ++ coloured ++ sequence 0

end Relock.Terminal
