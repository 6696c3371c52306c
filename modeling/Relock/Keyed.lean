/-!
# Keyed rows

Pairs in the order in which their keys were first set. Setting a key again replaces its entry and
keeps its place. Names in a program, entries of a report and globs of a suppression list are all
shown in such an order.
-/

namespace Relock

/-- Pairs with distinct keys, in the order of first setting. -/
abbrev Keyed (α β : Type) := List (α × β)

namespace Keyed

variable {α β : Type} [DecidableEq α]

/-- The entry of a key. -/
def get? (row : Keyed α β) (key : α) : Option β :=
  (row.find? fun e => decide (e.1 = key)).map (·.2)

/-- Whether a key has an entry. -/
def has (row : Keyed α β) (key : α) : Bool := row.any fun e => decide (e.1 = key)

/-- Sets the entry of a key: in its place if it has one, else at the end. -/
def set : Keyed α β → α → β → Keyed α β
  | [], key, entry => [(key, entry)]
  | (k, e) :: row, key, entry => if k = key then (k, entry) :: row else (k, e) :: set row key entry

/-- Changes the entry of a key, or sets it from `fresh`. -/
def update (row : Keyed α β) (key : α) (fresh : β) (change : β → β) : Keyed α β :=
  row.set key (change ((row.get? key).getD fresh))

/-- The keys, in order. -/
def keys (row : Keyed α β) : List α := row.map (·.1)

/-- The entries, in order. -/
def entries (row : Keyed α β) : List β := row.map (·.2)

end Keyed
end Relock
