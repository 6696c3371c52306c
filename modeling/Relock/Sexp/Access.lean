import Relock.Sexp.Basic

/-!
# Access to the parts of forms

Readers of forms take lists apart by index, and an access can go wrong: there may be no part at the
index, and a form that is not a list has no parts at all. An access that goes wrong is a `Crash`. It
is not a refusal: nothing in a text is named by it, and a reader that checks what it reads never
meets one. Slices of a list never go wrong.
-/

namespace Relock.Sexp

/-- How an access goes wrong. -/
inductive Crash where
  /-- There is no part at the index. -/
  | outOfRange (index : Nat)
  /-- The form is not a list. -/
  | noParts
  deriving DecidableEq, Repr

def Crash.message : Crash → String
  | outOfRange _ => "list index out of range"
  | noParts => "object is not a list"

/-- A part of a form is smaller than the form. -/
abbrev Part (form : Sexp) := { part : Sexp // sizeOf part < sizeOf form }

/-- Whether the form is a list. -/
def isList : Sexp → Bool
  | list _ => true
  | _ => false

/-- Whether the form is a list that is not empty. -/
def hasParts : Sexp → Bool
  | list (_ :: _) => true
  | _ => false

/-- The name of a symbol. -/
def symbol? : Sexp → Option String
  | symbol name => some name
  | _ => none

/-- All parts of a list. -/
def parts : Sexp → Except Crash (List Sexp)
  | list items => .ok items
  | _ => .error .noParts

/-- The number of parts. -/
def size (form : Sexp) : Except Crash Nat := form.parts.map List.length

/-- The parts from an index on. -/
def partsFrom (form : Sexp) (index : Nat) : Except Crash (List Sexp) :=
  form.parts.map (·.drop index)

theorem sizeOf_item_lt {items : List Sexp} {index : Nat} (h : index < items.length) :
    sizeOf items[index] < sizeOf (list items) := by
  have smaller := List.sizeOf_lt_of_mem (List.getElem_mem h)
  rw [list.sizeOf_spec]
  omega

/-- The part at an index. -/
def part : (form : Sexp) → Nat → Except Crash (Part form)
  | list items, index =>
    if h : index < items.length then .ok ⟨items[index], sizeOf_item_lt h⟩
    else .error (.outOfRange index)
  | _, _ => .error .noParts

/-- The form at an index of a row. -/
def nth (items : List Sexp) (index : Nat) : Except Crash Sexp :=
  match items[index]? with
  | some item => .ok item
  | none => .error (.outOfRange index)

/-- The last part. -/
def last (form : Sexp) : Except Crash Sexp := do
  match (← form.parts).getLast? with
  | some item => return item
  | none => throw (.outOfRange 0)

/-! ## Checks that look before they access -/

/-- Whether the form is a list of `count` parts. -/
def isListOf (count : Nat) (form : Sexp) : Except Crash Bool :=
  if form.isList then do return (← form.size) = count else return false

/-- Whether the form has the tag and `count` parts, the tag among them. -/
def isTagged (tag : String) (count : Nat) (form : Sexp) : Except Crash Bool :=
  if form.head? = some tag then do return (← form.size) = count else return false

/-! ## Accesses to lists -/

section Lists

variable {items : List Sexp}

@[simp] theorem parts_list : (list items).parts = .ok items := rfl

@[simp] theorem size_list : (list items).size = .ok items.length := rfl

theorem last_concat (item : Sexp) : (list (items ++ [item])).last = .ok item := by
  simp only [last, parts_list, bind, Except.bind, List.getLast?_concat]
  rfl

end Lists

end Relock.Sexp
