import Relock.Order
import Relock.Text.Quoted

/-!
# JSON records

Values of JSON without fractions, and their one-line text: the fields of objects in order of their
keys, a blank after each comma and colon, and only printable ASCII characters. Any other character
is written by its UTF-16 units, so two for a character beyond the basic plane.
-/

namespace Relock

/-- A JSON value. -/
inductive Json where
  | null
  | bool (b : Bool)
  | int (n : Int)
  | string (s : String)
  | array (items : List Json)
  | object (fields : List (String × Json))
  deriving Inhabited

namespace Json

/-- The UTF-16 units of a character. -/
def units (c : Char) : List Nat :=
  if c.toNat < 0x10000 then [c.toNat]
  else [0xd800 + (c.toNat - 0x10000) / 0x400, 0xdc00 + (c.toNat - 0x10000) % 0x400]

/-- A character inside a JSON string. -/
def escaped (c : Char) : List Char :=
  if c = '"' then ['\\', '"']
  else if c = '\\' then ['\\', '\\']
  else if c = '\n' then ['\\', 'n']
  else if c = '\r' then ['\\', 'r']
  else if c = '\t' then ['\\', 't']
  else if c = '\x08' then ['\\', 'b']
  else if c = '\x0c' then ['\\', 'f']
  else if 0x20 ≤ c.toNat ∧ c.toNat < 0x7f then [c]
  else (units c).flatMap fun unit => '\\' :: 'u' :: Text.hexDigits 4 unit

/-- A JSON string. -/
def quoted (s : String) : String := String.ofList ('"' :: s.toList.flatMap escaped ++ ['"'])

mutual
/-- The one-line text of a value. -/
def render : Json → String
  | null => "null"
  | bool b => if b then "true" else "false"
  | int n => toString n
  | string s => quoted s
  | array items => "[" ++ ", ".intercalate (renderItems items) ++ "]"
  | object fields =>
    let rows := sortBy (fun a b => decide (a.1 < b.1)) (renderFields fields)
    "\x7b" ++ ", ".intercalate (rows.map fun row => quoted row.1 ++ ": " ++ row.2) ++ "\x7d"
/-- The texts of the items of an array. -/
def renderItems : List Json → List String
  | [] => []
  | item :: items => render item :: renderItems items
/-- The texts of the fields of an object, by key. -/
def renderFields : List (String × Json) → List (String × String)
  | [] => []
  | (key, value) :: fields => (key, render value) :: renderFields fields
end

end Json
end Relock
