import Relock.CallGraph.Basic

/-!
# Strongly connected components

Functions that call each other, directly or through others, form a component. Components are found
by one depth-first search that numbers nodes as it meets them and keeps the nodes of unfinished
components on a stack; a node whose callees lead back to no earlier node of the stack closes the
component on top of it. A component therefore comes after every component it calls into.
-/

namespace Relock.CallGraph

/-- The state of the search: the numbers given to nodes, newest first; the stack, newest first; and
the components closed so far, in order. -/
structure Components where
  numbers : List (Nat × Nat) := []
  stack : List Nat := []
  closed : List (List Nat) := []
  deriving Inhabited

namespace Components

/-- The number of a node that was met. -/
def number? (s : Components) (n : Nat) : Option Nat := (s.numbers.find? fun e => e.1 = n).map (·.2)

/-- Meets a node. -/
def enter (s : Components) (n : Nat) : Components :=
  { s with numbers := (n, s.numbers.length) :: s.numbers, stack := n :: s.stack }

/-- Closes the component on the stack down to a node. -/
def close (s : Components) (n : Nat) : Components :=
  { s with stack := (s.stack.dropWhile (· ≠ n)).drop 1,
           closed := s.closed ++ [s.stack.takeWhile (· ≠ n) ++ [n]] }

end Components

/-- Searches from a node that was not met before, and gives the least number on the stack that it
leads to. A search goes at most as deep as there are nodes. -/
def search (g : CallGraph) : (depth : Nat) → (n : Nat) → Components → Nat × Components
  | 0, _, s => (0, s)
  | depth + 1, n, s =>
    let number := s.numbers.length
    let (low, s) := (g.callees n).foldl (fun (low, s) callee =>
      match s.number? callee with
      | none =>
        let (reached, s) := search g depth callee s
        (min low reached, s)
      | some k => if callee ∈ s.stack then (min low k, s) else (low, s)) (number, s.enter n)
    (low, if low = number then s.close n else s)

/-- The components, each after those it calls into. -/
def components (g : CallGraph) : List (List Nat) :=
  (g.nodes.foldl (fun (s : Components) n =>
    if (s.number? n).isSome then s else (g.search (g.nodes.length + 2) n s).2) {}).closed

/-- Counts over a call graph. -/
structure Statistics where
  functions : Nat
  externalFunctions : Nat
  totalEdges : Nat
  resolvedCalls : Nat
  unresolvedCalls : Nat
  recursiveComponents : Nat
  selfRecursiveFunctions : Nat
  deriving DecidableEq, Repr, Inhabited

def statistics (g : CallGraph) : Statistics :=
  { functions := (g.nodes.filter fun n => g.kindOf n = .function).length,
    externalFunctions := (g.nodes.filter fun n => g.kindOf n = .external).length,
    totalEdges := g.edges.length,
    resolvedCalls := (g.edges.filter fun e => e.callee ≠ sink).length,
    unresolvedCalls := (g.edges.filter fun e => e.callee = sink).length,
    recursiveComponents := (g.components.filter fun c => 1 < c.length).length,
    selfRecursiveFunctions := (g.nodes.filter g.isRecursive).length }

/-- The counts with their names, in the order in which they are listed. -/
def Statistics.rows (s : Statistics) : List (String × Nat) :=
  [("functions", s.functions), ("external_functions", s.externalFunctions),
    ("total_edges", s.totalEdges), ("resolved_calls", s.resolvedCalls),
    ("unresolved_calls", s.unresolvedCalls), ("recursive_sccs", s.recursiveComponents),
    ("self_recursive_functions", s.selfRecursiveFunctions)]

end Relock.CallGraph
