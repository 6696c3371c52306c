import Mathlib.Data.List.Perm.Basic
import Relock.Json
import Relock.Proofs.Order
import Relock.Proofs.Text

/-!
# JSON texts tell values apart

The text of a value holds only printable ASCII characters, and two values have one text exactly if
they are the same up to the order of the fields of objects (`render_eq_iff`). For the second,
`readChar` reads back the first character of a string whatever follows it, and `Tells` says of a
piece of a text that whatever follows, no other piece gives that text. It passes from strings and
numbers to arrays and objects by induction on the value.

That objects are told by their fields in any order needs distinct keys (`Proper`): of fields with
one key, the text keeps the order.
-/

namespace Relock
namespace Json

/-- What holds of arrays and objects if it holds of their parts holds of all values. -/
@[elab_as_elim] theorem of_parts {motive : Json → Prop} (null : motive .null)
    (bool : ∀ b, motive (.bool b)) (int : ∀ n, motive (.int n)) (string : ∀ s, motive (.string s))
    (array : ∀ items, (∀ v ∈ items, motive v) → motive (.array items))
    (object : ∀ fields, (∀ f ∈ fields, motive f.2) → motive (.object fields)) (v : Json) :
    motive v :=
  @Json.rec motive (fun items => ∀ v ∈ items, motive v) (fun fields => ∀ f ∈ fields, motive f.2)
    (fun field => motive field.2) null bool int string array object
    (List.forall_mem_nil _) (fun _ _ here later => List.forall_mem_cons.mpr ⟨here, later⟩)
    (List.forall_mem_nil _) (fun _ _ here later => List.forall_mem_cons.mpr ⟨here, later⟩)
      (fun _ _ value => value) v

/-! ## Characters of strings -/

/-- The value of a hexadecimal digit. -/
def hexValue? (c : Char) : Option Nat := (List.range 16).find? fun n => Nat.digitChar n = c

theorem hexValue?_digitChar : ∀ n < 16, hexValue? (Nat.digitChar n) = some n := by decide

/-- A unit of four hexadecimal digits at the beginning of a text. -/
def readUnit : List Char → Option (Nat × List Char)
  | a :: b :: c :: d :: rest => do
    return (16 * (16 * (16 * (← hexValue? a) + (← hexValue? b)) + (← hexValue? c)) +
      (← hexValue? d), rest)
  | _ => none

theorem readUnit_hexDigits {n : Nat} (small : n < 0x10000) (rest : List Char) :
    readUnit (Text.hexDigits 4 n ++ rest) = some (n, rest) := by
  have digit (m : Nat) : hexValue? (Nat.digitChar (m % 16)) = some (m % 16) :=
    hexValue?_digitChar _ (Nat.mod_lt _ (by decide))
  have value : 16 * (16 * (16 * (n / 16 / 16 / 16 % 16) + n / 16 / 16 % 16) + n / 16 % 16) +
      n % 16 = n := by omega
  simp only [Text.hexDigits, List.nil_append, List.cons_append, readUnit, digit,
    Option.bind_eq_bind, Option.bind_some, value]
  rfl

/-- The escapes of two characters: the second one and what it stands for. -/
def shortEscapes : List (Char × Char) :=
  [('"', '"'), ('\\', '\\'), ('n', '\n'), ('r', '\r'), ('t', '\t'), ('b', '\x08'), ('f', '\x0c')]

/-- The character of a unit, or of two that are surrogates. -/
def readCodePoint (cs : List Char) : Option (Char × List Char) :=
  (readUnit cs).bind fun high =>
    if 0xd800 ≤ high.1 ∧ high.1 < 0xdc00 then
      (readUnit (high.2.drop 2)).map fun low =>
        (Char.ofNat (0x10000 + 0x400 * (high.1 - 0xd800) + (low.1 - 0xdc00)), low.2)
    else some (Char.ofNat high.1, high.2)

/-- The character of an escape, after its backslash. -/
def readEscape : List Char → Option (Char × List Char)
  | [] => none
  | e :: cs => if e = 'u' then readCodePoint cs else (shortEscapes.lookup e).map (·, cs)

/-- The first character of the text of a string. -/
def readChar : List Char → Option (Char × List Char)
  | [] => none
  | c :: cs => if c = '\\' then readEscape cs else some (c, cs)

/-- The printable ASCII characters. -/
def Printable (c : Char) : Prop := 0x20 ≤ c.toNat ∧ c.toNat ≤ 0x7e

instance (c : Char) : Decidable (Printable c) := inferInstanceAs (Decidable (_ ∧ _))

/-- What may be written for a character. -/
inductive Escapes (c : Char) : List Char → Prop where
  | short {e : Char} (known : shortEscapes.lookup e = some c) (apart : e ≠ 'u')
      (printable : Printable e) :
    Escapes c ['\\', e]
  | plain (quote : c ≠ '"') (backslash : c ≠ '\\') (printable : Printable c) : Escapes c [c]
  | units : Escapes c ((units c).flatMap fun unit => '\\' :: 'u' :: Text.hexDigits 4 unit)

theorem escapes_escaped (c : Char) : Escapes c (escaped c) := by
  unfold escaped
  split_ifs with quote backslash _ _ _ _ _ printable
  -- the seven characters of short escapes
  iterate 7
    · subst c
      exact .short (by decide) (by decide) (by decide)
  · exact .plain quote backslash ⟨printable.1, Nat.le_of_lt_succ printable.2⟩
  · exact .units

/-- A character of one unit is no surrogate. -/
theorem readCodePoint_one {c : Char} (small : c.toNat < 0x10000) (rest : List Char) :
    readCodePoint (Text.hexDigits 4 c.toNat ++ rest) = some (c, rest) := by
  have valid : c.toNat < 0xd800 ∨ 0xdfff < c.toNat ∧ c.toNat < 0x110000 := c.valid
  have one : ¬ (0xd800 ≤ c.toNat ∧ c.toNat < 0xdc00) := by omega
  rw [readCodePoint, readUnit_hexDigits small, Option.bind_some, if_neg one, Char.ofNat_toNat]

theorem readCodePoint_two {c : Char} {high low : Nat} (first : 0xd800 ≤ high ∧ high < 0xdc00)
    (small : low < 0x10000) (value : 0x10000 + 0x400 * (high - 0xd800) + (low - 0xdc00) = c.toNat)
    (rest : List Char) :
    readCodePoint (Text.hexDigits 4 high ++ '\\' :: 'u' :: (Text.hexDigits 4 low ++ rest)) =
      some (c, rest) := by
  have small' : high < 0x10000 := by omega
  rw [readCodePoint, readUnit_hexDigits small', Option.bind_some, if_pos first]
  show (readUnit (Text.hexDigits 4 low ++ rest)).map _ = _
  rw [readUnit_hexDigits small, Option.map_some, value, Char.ofNat_toNat]

theorem readChar_units (c : Char) (rest : List Char) :
    readChar (((units c).flatMap fun unit => '\\' :: 'u' :: Text.hexDigits 4 unit) ++ rest) =
      some (c, rest) := by
  unfold units
  split
  next small =>
    rw [List.flatMap_singleton]
    exact readCodePoint_one small rest
  next large =>
    have bound : c.toNat < 0x110000 := by
      have valid : c.toNat < 0xd800 ∨ 0xdfff < c.toNat ∧ c.toNat < 0x110000 := c.valid
      omega
    rw [List.flatMap_cons, List.flatMap_singleton, List.append_assoc]
    refine readCodePoint_two ?_ ?_ ?_ rest
    · omega
    · omega
    · omega

/-- A character is read back, whatever follows. -/
theorem readChar_escaped (c : Char) (rest : List Char) :
    readChar (escaped c ++ rest) = some (c, rest) := by
  have escapes := escapes_escaped c
  generalize escaped c = text at escapes ⊢
  cases escapes with
  | @short e known apart =>
    show (if e = 'u' then readCodePoint rest else (shortEscapes.lookup e).map (·, rest)) = _
    rw [if_neg apart, known, Option.map_some]
  | plain _ backslash => exact if_neg backslash
  | units => exact readChar_units c rest

theorem escaped_ne_quote (c : Char) (rest rest' : List Char) :
    escaped c ++ rest ≠ '"' :: rest' := by
  intro same
  have read : readChar ('"' :: rest') = some (c, rest) := same ▸ readChar_escaped c rest
  have quote : readChar ('"' :: rest') = some ('"', rest') := rfl
  obtain ⟨rfl, _⟩ := Prod.mk.inj (Option.some.inj (quote.symm.trans read))
  have first : '\\' = '"' := (List.cons.inj same).1
  exact absurd first (by decide)

theorem toList_quoted (s : String) :
    (quoted s).toList = '"' :: (s.toList.flatMap escaped ++ ['"']) :=
  String.toList_ofList

/-- Strings are told apart by the texts that begin with them. -/
theorem quoted_append_inj {s t : String} {rest rest' : List Char}
    (same : (quoted s).toList ++ rest = (quoted t).toList ++ rest') : s = t ∧ rest = rest' := by
  have chars (cs ds : List Char)
      (same : cs.flatMap escaped ++ '"' :: rest = ds.flatMap escaped ++ '"' :: rest') :
      cs = ds ∧ rest = rest' := by
    induction cs generalizing ds with
    | nil =>
      cases ds with
      | nil => exact ⟨rfl, (List.cons.inj same).2⟩
      | cons d ds =>
        rw [List.flatMap_cons, List.append_assoc] at same
        exact absurd same.symm (escaped_ne_quote d _ _)
    | cons c cs ih =>
      rw [List.flatMap_cons, List.append_assoc] at same
      cases ds with
      | nil => exact absurd same (escaped_ne_quote c _ _)
      | cons d ds =>
        rw [List.flatMap_cons, List.append_assoc] at same
        have read := congrArg readChar same
        rw [readChar_escaped, readChar_escaped] at read
        obtain ⟨rfl, later⟩ := Prod.mk.inj (Option.some.inj read)
        obtain ⟨rfl, rest⟩ := ih ds later
        exact ⟨rfl, rest⟩
  simp only [toList_quoted, List.cons_append, List.append_assoc, List.nil_append, List.cons.injEq,
    true_and] at same
  obtain ⟨cs, rest⟩ := chars _ _ same
  exact ⟨String.toList_injective cs, rest⟩

/-! ## Rows -/

section Rows

variable {α : Type} {text : α → List Char} {R : α → α → Prop}

/-- Texts with a comma and a blank before each. -/
def followers (text : α → List Char) (xs : List α) : List Char :=
  xs.flatMap fun x => ',' :: ' ' :: text x

/-- Texts with a comma and a blank between them. -/
def rowText (text : α → List Char) : List α → List Char
  | [] => []
  | x :: xs => text x ++ followers text xs

theorem toList_intercalate (string : α → String) (xs : List α) :
    (", ".intercalate (xs.map string)).toList = rowText (fun x => (string x).toList) xs := by
  cases xs with
  | nil => rw [List.map_nil, String.intercalate_nil]; rfl
  | cons x xs =>
    induction xs generalizing x with
    | nil =>
      rw [List.map_singleton, String.intercalate_singleton]
      exact (List.append_nil _).symm
    | cons y ys ih =>
      rw [List.map_cons, List.map_cons, String.intercalate_cons_cons, ← List.map_cons,
        String.toList_append, ih, String.toList_append, List.append_assoc]
      rfl

/-- Whatever follows, the text of a thing is that of related things only. -/
def Tells (text : α → List Char) (R : α → α → Prop) (x : α) : Prop :=
  ∀ y rest rest', Text.Stops rest → Text.Stops rest' → text x ++ rest = text y ++ rest' →
    R x y ∧ rest = rest'

variable {xs ys : List α} {close : Char} {rest rest' : List Char}

theorem stops_followers (stop : Text.isNumeral close = false) (xs : List α) (rest : List Char) :
    Text.Stops (followers text xs ++ close :: rest) := by
  cases xs with
  | nil => exact Text.stops_cons stop rest
  | cons => exact Text.stops_cons (by decide) _

theorem tells_followers (stop : Text.isNumeral close = false) (comma : close ≠ ',')
    (tells : ∀ x ∈ xs, Tells text R x)
    (same : followers text xs ++ close :: rest = followers text ys ++ close :: rest') :
    List.Forall₂ R xs ys ∧ rest = rest' := by
  induction xs generalizing ys with
  | nil =>
    cases ys with
    | nil => exact ⟨.nil, (List.cons.inj same).2⟩
    | cons => exact absurd (List.cons.inj same).1 comma
  | cons x xs ih =>
    obtain ⟨here, later⟩ := List.forall_mem_cons.mp tells
    cases ys with
    | nil => exact absurd (List.cons.inj same).1.symm comma
    | cons y ys =>
      have after : text x ++ (followers text xs ++ close :: rest) = text y ++
          (followers text ys ++ close :: rest') := by
        simpa only [followers, List.flatMap_cons, List.cons_append, List.append_assoc,
          List.cons.injEq, true_and] using same
      obtain ⟨related, after⟩ :=
        here y _ _ (stops_followers stop xs rest) (stops_followers stop ys rest') after
      obtain ⟨others, rest⟩ := ih later after
      exact ⟨.cons related others, rest⟩

/-- If the closing character begins no text, rows are told apart by their texts with it. -/
theorem tells_row (stop : Text.isNumeral close = false) (comma : close ≠ ',')
    (starts : ∀ x rest rest', text x ++ rest ≠ close :: rest') (tells : ∀ x ∈ xs, Tells text R x)
    (same : rowText text xs ++ close :: rest = rowText text ys ++ close :: rest') :
    List.Forall₂ R xs ys ∧ rest = rest' := by
  cases xs with
  | nil =>
    cases ys with
    | nil => exact ⟨.nil, (List.cons.inj same).2⟩
    | cons y ys =>
      rw [rowText, rowText, List.append_assoc] at same
      exact absurd same.symm (starts y _ _)
  | cons x xs =>
    rw [rowText, List.append_assoc] at same
    cases ys with
    | nil => exact absurd same (starts x _ _)
    | cons y ys =>
      rw [rowText, List.append_assoc] at same
      obtain ⟨here, later⟩ := List.forall_mem_cons.mp tells
      obtain ⟨related, after⟩ :=
        here y _ _ (stops_followers stop xs rest) (stops_followers stop ys rest') same
      obtain ⟨others, rest⟩ := tells_followers stop comma later after
      exact ⟨.cons related others, rest⟩

end Rows

/-! ## Texts of values -/

/-- The fields of an object in order of their keys. -/
def inOrder (fields : List (String × Json)) : List (String × Json) :=
  sortBy (fun a b => decide (a.1 < b.1)) fields

/-- The text of a field. -/
def fieldText (field : String × Json) : List Char :=
  (quoted field.1).toList ++ ':' :: ' ' :: (render field.2).toList

theorem renderItems_eq (items : List Json) : renderItems items = items.map render := by
  induction items with
  | nil => rfl
  | cons item items ih => rw [renderItems, ih, List.map_cons]

theorem renderFields_eq (fields : List (String × Json)) :
    renderFields fields = fields.map fun f => (f.1, render f.2) := by
  induction fields with
  | nil => rfl
  | cons field fields ih => rw [renderFields, ih, List.map_cons]

theorem toList_render_array (items : List Json) :
    (render (.array items)).toList = '[' ::
    (rowText (fun v => (render v).toList) items ++ [']']) := by
  rw [render, renderItems_eq, String.toList_append, String.toList_append, toList_intercalate]
  rfl

theorem toList_render_object (fields : List (String × Json)) :
    (render (.object fields)).toList = '\x7b' ::
    (rowText fieldText (inOrder fields) ++ ['\x7d']) := by
  have rows : sortBy (fun a b => decide (a.1 < b.1)) (renderFields fields) =
      (inOrder fields).map fun f => (f.1, render f.2) := by
    rw [renderFields_eq]
    exact sortBy_map (fun _ _ => rfl) fields
  have row : (fun f : String × Json => (quoted f.1 ++ ": " ++ render f.2).toList) = fieldText := by
    funext f
    rw [String.toList_append, String.toList_append, List.append_assoc]
    rfl
  rw [render, rows, List.map_map, String.toList_append, String.toList_append]
  exact congrArg (fun row => '\x7b' :: (row ++ ['\x7d']))
    ((toList_intercalate _ _).trans (row ▸ rfl))

/-- The constructors of values. -/
inductive Kind where
  | null | bool | int | string | array | object

/-- The constructor of a value. -/
def kind : Json → Kind
  | null => .null
  | bool _ => .bool
  | int _ => .int
  | string _ => .string
  | array _ => .array
  | object _ => .object

/-- The constructor of the values whose texts begin with a character. -/
def kindOf? (c : Char) : Option Kind :=
  if Text.isNumeral c then some .int
  else [('n', .null), ('t', .bool), ('f', .bool), ('"', .string), ('[', .array),
    ('\x7b', .object)].lookup c

/-- A text begins with a character that tells the constructor of the value. -/
theorem render_starts (v : Json) : ∃ c cs, (render v).toList = c :: cs ∧
    kindOf? c = some v.kind := by
  cases v with
  | null => exact ⟨'n', _, rfl, rfl⟩
  | bool b =>
    cases b with
    | false => exact ⟨'f', _, rfl, rfl⟩
    | true => exact ⟨'t', _, rfl, rfl⟩
  | int n =>
    obtain ⟨c, cs, text, numeral⟩ := Text.toString_int_starts n
    exact ⟨c, cs, text, if_pos numeral⟩
  | string s => exact ⟨'"', _, toList_quoted s, rfl⟩
  | array items => exact ⟨'[', _, toList_render_array items, rfl⟩
  | object fields => exact ⟨'\x7b', _, toList_render_object fields, rfl⟩

theorem kind_eq {v w : Json} {rest rest' : List Char}
    (same : (render v).toList ++ rest = (render w).toList ++ rest') :
    v.kind = w.kind := by
  obtain ⟨c, cs, text, starts⟩ := render_starts v
  obtain ⟨d, ds, text', starts'⟩ := render_starts w
  rw [text, text'] at same
  obtain rfl := (List.cons.inj same).1
  exact Option.some.inj (starts.symm.trans starts')

theorem render_ne_bracket (v : Json) (rest rest' : List Char) :
    (render v).toList ++ rest ≠ ']' :: rest' := by
  obtain ⟨c, cs, text, starts⟩ := render_starts v
  rw [text]
  intro same
  obtain rfl : c = ']' := (List.cons.inj same).1
  have none : kindOf? ']' = none := rfl
  exact Option.some_ne_none _ (starts.symm.trans none)

theorem fieldText_ne_brace (field : String × Json) (rest rest' : List Char) :
    fieldText field ++ rest ≠ '\x7d' :: rest' := by
  intro same
  rw [fieldText, toList_quoted] at same
  have first : '"' = '\x7d' := (List.cons.inj same).1
  exact absurd first (by decide)

/-! ## Telling values apart -/

/-- Values are the same up to the order of the fields of objects. -/
inductive Same : Json → Json → Prop where
  | null : Same .null .null
  | bool (b : Bool) : Same (.bool b) (.bool b)
  | int (n : Int) : Same (.int n) (.int n)
  | string (s : String) : Same (.string s) (.string s)
  | array {items items' : List Json} (same : List.Forall₂ Same items items') :
      Same (.array items) (.array items')
  | object {fields fields' row : List (String × Json)} (perm : fields.Perm row)
    (keys : row.map (·.1) = fields'.map (·.1))
      (values : List.Forall₂ Same (row.map (·.2)) (fields'.map (·.2))) :
    Same (.object fields) (.object fields')

/-- Fields of one key whose values are the same. -/
def SameField (f g : String × Json) : Prop := f.1 = g.1 ∧ Same f.2 g.2

theorem tells_field {f : String × Json} (value : Tells (fun v => (render v).toList) Same f.2) :
    Tells fieldText SameField f := by
  intro g rest rest' stops stops' same
  rw [fieldText, fieldText, List.append_assoc, List.append_assoc] at same
  obtain ⟨key, same⟩ := quoted_append_inj same
  obtain ⟨same, rest⟩ := value g.2 rest rest' stops stops' (List.cons.inj (List.cons.inj same).2).2
  exact ⟨⟨key, same⟩, rest⟩

theorem same_string_iff {s t : String} : Same (.string s) (.string t) ↔ s = t := by
  constructor
  · intro same
    cases same
    rfl
  · rintro rfl
    exact .string s

theorem same_int_iff {m n : Int} : Same (.int m) (.int n) ↔ m = n := by
  constructor
  · intro same
    cases same
    rfl
  · rintro rfl
    exact .int m

theorem same_array_iff {items items' : List Json} :
    Same (.array items) (.array items') ↔ List.Forall₂ Same items items' := by
  constructor
  · intro same
    cases same with
    | array same => exact same
  · exact .array

/-- Objects are the same if the fields of one, in some order, are those of the other. -/
theorem same_object_iff {fields fields' : List (String × Json)} :
    Same (.object fields) (.object fields') ↔ ∃ row, fields.Perm row ∧
    List.Forall₂ SameField row fields' := by
  have both (row : List (String × Json)) : List.Forall₂ SameField row fields' ↔
      row.map (·.1) = fields'.map (·.1) ∧
      List.Forall₂ Same (row.map (·.2)) (fields'.map (·.2)) := by
    rw [← List.forall₂_eq_eq_eq, List.forall₂_map_left_iff, List.forall₂_map_right_iff,
      List.forall₂_map_left_iff, List.forall₂_map_right_iff]
    constructor
    · exact fun same => ⟨same.imp fun _ _ h => h.1, same.imp fun _ _ h => h.2⟩
    · rintro ⟨keys, values⟩
      exact List.forall₂_iff_zip.mpr ⟨keys.length_eq, fun mem =>
        ⟨(List.forall₂_iff_zip.mp keys).2 mem, (List.forall₂_iff_zip.mp values).2 mem⟩⟩
  constructor
  · intro same
    cases same with
    | object perm keys values => exact ⟨_, perm, (both _).mpr ⟨keys, values⟩⟩
  · rintro ⟨row, perm, same⟩
    obtain ⟨keys, values⟩ := (both row).mp same
    exact .object perm keys values

/-- Objects are the same if their fields in order of the keys are. -/
theorem same_object_of_ordered {fields fields' : List (String × Json)}
    (ordered : List.Forall₂ SameField (inOrder fields) (inOrder fields')) :
    Same (.object fields) (.object fields') := by
  -- the order that sorting changed in the second object is changed back in the first
  have arranged : Relation.Comp List.Perm (List.Forall₂ SameField) (inOrder fields) fields' := by
    rw [← List.forall₂_comp_perm_eq_perm_comp_forall₂]
    exact ⟨inOrder fields', ordered, sortBy_perm _ fields'⟩
  obtain ⟨row, perm, same⟩ := arranged
  exact same_object_iff.mpr ⟨row, (sortBy_perm _ fields).symm.trans perm, same⟩

/-- Whatever follows, the text of a value is that of the same values only. -/
theorem tells_render (v : Json) : Tells (fun v => (render v).toList) Same v := by
  induction v using of_parts with
  | null =>
    intro w rest rest' _ _ same
    -- here and below, a value of another constructor begins with another character
    have kinds := kind_eq same
    cases w with
    | null => exact ⟨.null, List.append_cancel_left same⟩
    | _ => simp only [kind, reduceCtorEq] at kinds
  | bool b =>
    intro w rest rest' _ _ same
    have kinds := kind_eq same
    cases w with
    | bool b' =>
      cases b with
      | false =>
        cases b' with
        | false => exact ⟨.bool false, List.append_cancel_left same⟩
        | true => exact absurd (List.cons.inj same).1 (by decide)
      | true =>
        cases b' with
        | false => exact absurd (List.cons.inj same).1 (by decide)
        | true => exact ⟨.bool true, List.append_cancel_left same⟩
    | _ => simp only [kind, reduceCtorEq] at kinds
  | int n =>
    intro w rest rest' stops stops' same
    have kinds := kind_eq same
    cases w with
    | int n' =>
      obtain ⟨rfl, rest⟩ := Text.toString_append_inj stops stops' same
      exact ⟨.int n, rest⟩
    | _ => simp only [kind, reduceCtorEq] at kinds
  | string s =>
    intro w rest rest' _ _ same
    have kinds := kind_eq same
    cases w with
    | string s' =>
      obtain ⟨rfl, rest⟩ := quoted_append_inj same
      exact ⟨.string s, rest⟩
    | _ => simp only [kind, reduceCtorEq] at kinds
  | array items tells =>
    intro w rest rest' _ _ same
    have kinds := kind_eq same
    cases w with
    | array items' =>
      simp only [toList_render_array, List.cons_append, List.append_assoc, List.nil_append,
        List.cons.injEq, true_and] at same
      obtain ⟨items, rest⟩ := tells_row (by decide) (by decide) render_ne_bracket tells same
      exact ⟨.array items, rest⟩
    | _ => simp only [kind, reduceCtorEq] at kinds
  | object fields tells =>
    intro w rest rest' _ _ same
    have kinds := kind_eq same
    cases w with
    | object fields' =>
      simp only [toList_render_object, List.cons_append, List.append_assoc, List.nil_append,
        List.cons.injEq, true_and] at same
      have tells : ∀ f ∈ inOrder fields, Tells fieldText SameField f := by
        intro f mem
        exact tells_field (tells f (mem_sortBy.mp mem))
      obtain ⟨ordered, rest⟩ := tells_row (by decide) (by decide) fieldText_ne_brace tells same
      exact ⟨same_object_of_ordered ordered, rest⟩
    | _ => simp only [kind, reduceCtorEq] at kinds

/-- Every object in a value has distinct keys. -/
inductive Proper : Json → Prop where
  | null : Proper .null
  | bool (b : Bool) : Proper (.bool b)
  | int (n : Int) : Proper (.int n)
  | string (s : String) : Proper (.string s)
  | array {items : List Json} (parts : ∀ v ∈ items, Proper v) : Proper (.array items)
  | object {fields : List (String × Json)} (distinct : (fields.map (·.1)).Nodup)
      (parts : ∀ f ∈ fields, Proper f.2) :
    Proper (.object fields)

theorem map_eq_of_forall₂ {α β : Type} {R : α → α → Prop} {f : α → β} {xs ys : List α}
    (related : List.Forall₂ R xs ys) (respects : ∀ x ∈ xs, ∀ y, R x y → f x = f y) :
    xs.map f = ys.map f := by
  induction related with
  | nil => rfl
  | @cons x y xs ys here later ih =>
    obtain ⟨first, others⟩ := List.forall_mem_cons.mp respects
    rw [List.map_cons, List.map_cons, first y here, ih others]

/-- Values that are the same have one text. -/
theorem render_congr {v w : Json} (proper : Proper v) (same : Same v w) : render v = render w := by
  induction v using of_parts generalizing w with
  | null => cases same; rfl
  | bool => cases same; rfl
  | int => cases same; rfl
  | string => cases same; rfl
  | array items ih =>
    cases proper with
    | array parts =>
      cases same with
      | array same =>
        rw [render, render, renderItems_eq, renderItems_eq,
          map_eq_of_forall₂ same fun v mem w same => ih v mem (parts v mem) same]
  | object fields ih =>
    cases proper with
    | object distinct parts =>
      cases same with
      | @object _ fields' row perm keys values =>
        have texts : row.map (fun f => render f.2) = fields'.map fun f => render f.2 := by
          have each := map_eq_of_forall₂ (f := render) values fun v mem w same => by
            obtain ⟨f, inRow, rfl⟩ := List.mem_map.mp mem
            have mem : f ∈ fields := perm.mem_iff.mpr inRow
            exact ih f mem (parts f mem) same
          rwa [List.map_map, List.map_map] at each
        have rows : row.map (fun f => (f.1, render f.2)) =
            fields'.map fun f => (f.1, render f.2) := by
          rw [← List.zip_map', ← List.zip_map', keys, texts]
        have sorted :
            sortBy (fun a b => decide (a.1 < b.1)) (fields.map fun f => (f.1, render f.2)) =
              sortBy (fun a b => decide (a.1 < b.1)) (row.map fun f => (f.1, render f.2)) := by
          refine sortBy_eq_of_perm (fun a b => decide_eq_true_iff) (perm.map _) ?_
          exact List.pairwise_map.mpr (List.pairwise_map.mp distinct)
        rw [render, render, renderFields_eq, renderFields_eq, sorted, rows]

/-- Values have one text exactly if they are the same. -/
theorem render_eq_iff {v w : Json} (proper : Proper v) : render v = render w ↔ Same v w := by
  constructor
  · intro same
    have stops : Text.Stops [] := fun _ first => absurd first (Option.not_mem_none _)
    exact (tells_render v w [] [] stops stops (congrArg (fun text => text.toList ++ []) same)).1
  · exact render_congr proper

/-! ## Printable texts -/

theorem printable_hexDigits {width n : Nat} {c : Char} (mem : c ∈ Text.hexDigits width n) :
    Printable c := by
  have digit : ∀ m < 16, Printable (Nat.digitChar m) := by decide
  induction width generalizing n with
  | zero => exact absurd mem List.not_mem_nil
  | succ width ih =>
    rcases List.mem_append.mp mem with higher | last
    · exact ih higher
    · rw [List.mem_singleton.mp last]
      exact digit _ (Nat.mod_lt n (by decide))

theorem printable_escaped {c d : Char} (mem : d ∈ escaped c) : Printable d := by
  have escapes := escapes_escaped c
  generalize escaped c = text at escapes mem
  cases escapes with
  | short _ _ printable =>
    rcases List.mem_pair.mp mem with rfl | rfl
    · decide
    · exact printable
  | plain _ _ printable => exact List.mem_singleton.mp mem ▸ printable
  | units =>
    obtain ⟨unit, _, mem⟩ := List.mem_flatMap.mp mem
    rcases List.mem_cons.mp mem with rfl | mem
    · decide
    rcases List.mem_cons.mp mem with rfl | mem
    · decide
    · exact printable_hexDigits mem

theorem printable_quoted {s : String} {c : Char} (mem : c ∈ (quoted s).toList) : Printable c := by
  rw [toList_quoted, List.mem_cons, List.mem_append, List.mem_singleton] at mem
  rcases mem with rfl | mem | rfl
  · decide
  · obtain ⟨d, _, mem⟩ := List.mem_flatMap.mp mem
    exact printable_escaped mem
  · decide

theorem printable_numeral {c : Char} (numeral : Text.isNumeral c = true) : Printable c := by
  rcases Bool.or_eq_true_iff.mp numeral with sign | digit
  · rw [of_decide_eq_true sign]
    decide
  · have bounds : 48 ≤ c.toNat ∧ c.toNat ≤ 57 := by
      rwa [Char.isDigit, Bool.and_eq_true, decide_eq_true_eq, decide_eq_true_eq, ge_iff_le,
        UInt32.le_iff_toNat_le, UInt32.le_iff_toNat_le] at digit
    exact ⟨by omega, by omega⟩

theorem printable_rowText {α : Type} {text : α → List Char} {xs : List α} {c : Char}
    (each : ∀ x ∈ xs, c ∈ text x → Printable c) (mem : c ∈ rowText text xs) : Printable c := by
  cases xs with
  | nil => exact absurd mem List.not_mem_nil
  | cons x xs =>
    obtain ⟨first, others⟩ := List.forall_mem_cons.mp each
    rcases List.mem_append.mp mem with here | later
    · exact first here
    obtain ⟨y, inRow, mem⟩ := List.mem_flatMap.mp later
    rcases List.mem_cons.mp mem with rfl | mem
    · decide
    rcases List.mem_cons.mp mem with rfl | mem
    · decide
    · exact others y inRow mem

/-- A text has printable characters only. -/
theorem printable_render (v : Json) {c : Char} (mem : c ∈ (render v).toList) : Printable c := by
  have literal {text : List Char} (all : text.all (fun c => decide (Printable c)) = true)
      (mem : c ∈ text) : Printable c :=
    of_decide_eq_true (List.all_eq_true.mp all c mem)
  induction v using of_parts with
  | null => exact literal (by decide) mem
  | bool b =>
    cases b with
    | false => exact literal (by decide) mem
    | true => exact literal (by decide) mem
  | int n => exact printable_numeral (Text.isNumeral_of_mem mem)
  | string s => exact printable_quoted mem
  | array items ih =>
    rw [toList_render_array, List.mem_cons, List.mem_append, List.mem_singleton] at mem
    rcases mem with rfl | mem | rfl
    · decide
    · exact printable_rowText ih mem
    · decide
  | object fields ih =>
    rw [toList_render_object, List.mem_cons, List.mem_append, List.mem_singleton] at mem
    rcases mem with rfl | mem | rfl
    · decide
    · refine printable_rowText (fun f inRow mem => ?_) mem
      rw [fieldText, List.mem_append, List.mem_cons, List.mem_cons] at mem
      rcases mem with key | rfl | rfl | value
      · exact printable_quoted key
      · decide
      · decide
      · exact ih f (mem_sortBy.mp inRow) value
    · decide

end Json
end Relock
