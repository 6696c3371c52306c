/-!
# Rows in order

Sets of node numbers are strictly increasing rows, so that equal sets are equal rows. Other rows are
sorted by a key by insertion, which keeps rows with equal keys in their given order and is
structural, so that closed instances evaluate.
-/

namespace Relock

/-! ## Sets of numbers -/

/-- Adds a number to a strictly increasing row. -/
def insertId (n : Nat) : List Nat → List Nat
  | [] => [n]
  | m :: ms => if n < m then n :: m :: ms else if n = m then m :: ms else m :: insertId n ms

/-- The set of the numbers of a row. -/
def idSet (ids : List Nat) : List Nat := ids.foldr insertId []

/-- The sum of the numbers of a row. -/
def total : List Nat → Nat
  | [] => 0
  | n :: ns => n + total ns

@[simp] theorem total_append (row more : List Nat) :
    total (row ++ more) = total row + total more := by
  induction row with
  | nil => exact (Nat.zero_add _).symm
  | cons n row ih => simp only [List.cons_append, total, ih, Nat.add_assoc]

/-! ## Sorting by a key -/

/-- Puts an element before the first one whose key is not smaller. -/
def insertBy {α : Type} (less : α → α → Bool) (a : α) : List α → List α
  | [] => [a]
  | b :: bs => if less b a then b :: insertBy less a bs else a :: b :: bs

/-- The row in order. -/
def sortBy {α : Type} (less : α → α → Bool) (row : List α) : List α := row.foldr (insertBy less) []

/-- The row without elements that an earlier one equals under `same`. -/
def distinctBy {α : Type} (same : α → α → Bool) : List α → List α
  | [] => []
  | a :: as => a :: (distinctBy same as).filter fun b => !same a b

end Relock
