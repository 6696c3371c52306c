import Relock.Text.Quoted
import Relock.Number.Shortest

/-!
# S-expressions

The forms that program texts and pattern tables are written in, and the text in which messages show
a form. Round brackets make lists. Square brackets make a form of their own, and so does a quoted
form; neither is a list.
-/

namespace Relock

/-- A form. -/
inductive Sexp where
  | symbol (name : String)
  | string (text : String)
  | int (value : Int)
  | real (value : Float)
  | list (items : List Sexp)
  | brackets (items : List Sexp)
  | quoted (form : Sexp)

namespace Sexp

/-- The symbol at the head of a list. -/
def head? : Sexp → Option String
  | list (symbol name :: _) => some name
  | _ => none

/-- The name that a symbol or a string gives. -/
def name? : Sexp → Option String
  | symbol name => some name
  | string text => some text
  | _ => none

mutual
/-- A form as messages show it. -/
def render : Sexp → String
  | symbol name => "Symbol(" ++ Text.quoted name ++ ")"
  | string text => Text.quoted text
  | int value => toString value
  | real value => Number.realText value
  | list items => "[" ++ ", ".intercalate (renderAll items) ++ "]"
  | brackets items => "Brackets(I=[" ++ ", ".intercalate (renderAll items) ++ "])"
  | quoted form => "Quoted(" ++ render form ++ ")"
/-- The texts of a row of forms. -/
def renderAll : List Sexp → List String
  | [] => []
  | form :: forms => render form :: renderAll forms
end

end Sexp
end Relock
