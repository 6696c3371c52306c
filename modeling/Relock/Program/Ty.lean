/-!
# Static types

The types of values. Structures are nominal: their fields are kept by the program, and two structure
types are equal exactly when their names are. A type that the text leaves open is `unknown`.
-/

namespace Relock

/-- A static type. -/
inductive Ty where
  | unknown
  | void
  | int (name : String)
  | ptr (pointee : Ty)
  | struct (name : String)
  | array (length : Int) (element : Ty)
  | func (name : String)
  deriving DecidableEq, Repr, Inhabited

namespace Ty

/-- Whether the type is known. -/
def isKnown : Ty → Bool
  | unknown => false
  | _ => true

/-- The type as programs' dumps show it. -/
def text : Ty → String
  | unknown => "None"
  | void => "void"
  | int name => if name.isEmpty then "int" else name
  | ptr pointee => pointee.text ++ "*"
  | struct name => "%" ++ name
  | array length element => s!"[{length} x {element.text}]"
  | func name => if name.isEmpty then "func" else name

/-- The kind of a known type. -/
def kind? : Ty → Option String
  | unknown => none
  | void => some "void"
  | int _ => some "int"
  | ptr _ => some "ptr"
  | struct _ => some "struct"
  | array _ _ => some "array"
  | func _ => some "func"

end Ty
end Relock
