/-!
# Globs

Name patterns over whole texts: `*` stands for any text, `?` for any character, `[...]` for a
character of a set and `[!...]` for one outside it. Every other character stands for itself, the
backslash too. An opening bracket that is never closed stands for itself.

A pattern is a row of tokens, each of which takes one character, or any text for a star. A star
tries every suffix of what is left, so matching is structural on the row.
-/

namespace Relock

/-- The suffixes of a list, the longest first. -/
def suffixes {α : Type} : List α → List (List α)
  | [] => [[]]
  | a :: as => (a :: as) :: suffixes as

namespace Glob

/-- A member of a character set. -/
inductive Member where
  | single (c : Char)
  | range (low high : Char)
  deriving DecidableEq, Repr, Inhabited

/-- A piece of a pattern. -/
inductive Token where
  | star
  | any
  | one (c : Char)
  | set (negated : Bool) (members : List Member)
  deriving DecidableEq, Repr, Inhabited

/-- Whether a member covers a character. -/
def Member.covers : Member → Char → Bool
  | single m, c => m = c
  | range low high, c => decide (low ≤ c) && decide (c ≤ high)

/-- Whether a token other than a star takes a character. -/
def Token.takes : Token → Char → Bool
  | star, _ => false
  | any, _ => true
  | one m, c => m = c
  | set negated members, c => (members.any fun m => m.covers c) != negated

/-- Whether a row of tokens takes a whole text. -/
def accepts : List Token → List Char → Bool
  | [], cs => cs.isEmpty
  | .star :: tokens, cs => (suffixes cs).any (accepts tokens)
  | _ :: _, [] => false
  | token :: tokens, c :: cs => token.takes c && accepts tokens cs

/-! ## Reading patterns -/

/-- The members that the inside of a set spells. A hyphen between two characters makes a range; at
either end, or right after a range, it stands for itself. -/
def membersOf : List Char → List Member
  | low :: '-' :: high :: cs => .range low high :: membersOf cs
  | c :: cs => .single c :: membersOf cs
  | [] => []

/-- A range that runs backwards covers nothing. -/
def Member.isEmpty : Member → Bool
  | single _ => false
  | range low high => decide (high < low)

/-- A set without a mark in front. Empty ranges are dropped first; if the set then starts with the
mark, it is negated after all, and a range that starts with the mark falls into its parts. -/
def unmarkedSet (members : List Member) : Token :=
  match members with
  | .single '!' :: members => .set true members
  | .range '!' high :: members => .set true (.single '-' :: .single high :: members)
  | members => .set false members

/-- The inside of a set and the text after it, from the text after the opening bracket and the mark.
The first character is a member whatever it is. -/
def insideOf : List Char → Option (List Char × List Char)
  | [] => none
  | c :: cs =>
    if cs.contains ']' then
      some (c :: cs.takeWhile (· ≠ ']'), (cs.dropWhile (· ≠ ']')).drop 1)
    else none

/-- A set and the text after it, from the text after the opening bracket. -/
def setOf (cs : List Char) : Option (Token × List Char) :=
  match cs with
  | '!' :: inside => (insideOf inside).map fun (inside, rest) =>
      (.set true ((membersOf inside).filter fun m => !m.isEmpty), rest)
  | cs => (insideOf cs).map fun (inside, rest) =>
      (unmarkedSet ((membersOf inside).filter fun m => !m.isEmpty), rest)

/-- Reads a pattern. Each round takes a character away, so its length is fuel enough. -/
def tokens : (fuel : Nat) → List Char → List Token
  | 0, _ => []
  | _ + 1, [] => []
  | fuel + 1, '*' :: cs => .star :: tokens fuel cs
  | fuel + 1, '?' :: cs => .any :: tokens fuel cs
  | fuel + 1, '[' :: cs =>
    match setOf cs with
    | some (token, rest) => token :: tokens fuel rest
    | none => .one '[' :: tokens fuel cs
  | fuel + 1, c :: cs => .one c :: tokens fuel cs

/-- The row of tokens of a pattern. -/
def parse (pattern : String) : List Token := tokens pattern.length pattern.toList

end Glob

/-- Whether a glob takes a whole name. -/
def globAccepts (pattern name : String) : Bool := Glob.accepts (Glob.parse pattern) name.toList

end Relock
