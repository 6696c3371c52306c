import Relock.CallGraph.Basic
import Relock.Config
import Relock.LockSite

/-!
# Searching for a second acquisition

A query starts right after a lock site and walks the control flow forward while the lock is held. A
path ends at an operation where a member of the site's group acquires, which is reported, and at an
operation that releases the lock. A call of a function with a body is entered, each function once in
a query; if something is found inside, the caller's path ends at the call. Pattern-table functions
are entered only if the settings say so.

The search keeps a stack of frames, one for each function being walked; a frame holds the positions
still to be walked, the last found first. A position is what is left of a block. Blocks are walked
from their start at most once in a query. Every visited operation is a step, and a query stops when
it has taken more steps than the settings allow.

`Search.advance` is one move of the search; `Program.query` runs a query to its end.
-/

namespace Relock

/-- A path on which `second` acquires the lock that `first` still holds: the functions from the
first site's down to the second site's, and the calls that lead from each to the next. -/
structure Report where
  first : LockSite
  second : LockSite
  chain : List FunctionId
  calls : List OpId
  deriving DecidableEq, Repr, Inhabited

namespace Report

/-- What tells reports apart and orders them. -/
def key (r : Report) : List (List Nat) := [r.first.key, r.second.key, r.chain, r.calls]

def less (a b : Report) : Bool := decide (a.key < b.key)

def same (a b : Report) : Bool := decide (a.key = b.key)

/-- The locations of the first site, the calls and the second site. -/
def locations (p : Program) (r : Report) : List (Option Location) :=
  (r.first.op :: r.calls ++ [r.second.op]).map fun o => (p.op o).location

def chainNames (p : Program) (r : Report) : List String := r.chain.map fun f => (p.function f).name

end Report

/-- A position in a block: the operations still to be visited. -/
structure Position where
  block : BlockId
  rest : List OpId
  deriving DecidableEq, Repr, Inhabited

/-- A function being walked. `cursor` is the position in hand, `pending` those to take up later, the
next one first. `found` says that something was found in it. -/
structure Frame where
  function : FunctionId
  pending : List Position
  cursor : Option Position := none
  found : Bool := false
  deriving DecidableEq, Repr, Inhabited

/-- How a function came to be entered. -/
structure Entry where
  callee : FunctionId
  caller : FunctionId
  call : OpId
  deriving DecidableEq, Repr, Inhabited

/-- The state of a query; the innermost frame comes first. -/
structure Search where
  stack : List Frame
  blocks : List BlockId := []
  functions : List FunctionId
  entries : List Entry := []
  steps : Nat := 0
  truncated : Bool := false
  reports : List Report := []
  deriving Inhabited

/-- What a query is about: its site, the members of the group by operation, and the operations that
release the lock. -/
structure Query where
  site : LockSite
  root : FunctionId
  members : List LockSite
  releases : List OpId
  deriving Inhabited

/-- The outcome of a query. -/
structure QueryResult where
  reports : List Report := []
  truncated : Bool := false
  steps : Nat := 0
  deriving Inhabited

namespace Search

/-- The functions and calls that lead from the root to a function, the last first, by the entries.
`seen` holds the functions met; a function that comes back ends the chain. -/
def climb (root : FunctionId) (entries : List Entry) : (fuel : Nat) → (seen : List FunctionId) →
    FunctionId → List FunctionId × List OpId
  | 0, _, _ => ([], [])
  | fuel + 1, seen, f =>
    if f = root then ([], [])
    else match entries.find? fun e => e.callee = f with
      | none => ([], [])
      | some e =>
        if e.caller ∈ seen then ([], [])
        else
          let (fs, calls) := climb root entries fuel (e.caller :: seen) e.caller
          (e.caller :: fs, e.call :: calls)

/-- The functions from the root down to a function, and the calls between them. -/
def chainTo (root : FunctionId) (entries : List Entry) (f : FunctionId) :
    List FunctionId × List OpId :=
  let (fs, calls) := climb root entries (entries.length + 1) [f] f
  ((f :: fs).reverse, calls.reverse)

/-- The function that a call enters: one with a body, not entered before, and not of the pattern
table unless the settings say so. -/
def enterable? (p : Program) (config : Config) (visited : List FunctionId) (op : Operation) :
    Option (FunctionId × BlockId) :=
  match op.target? with
  | none => none
  | some f =>
    match (p.function f).entryBlock? with
    | none => none
    | some entry =>
      if f ∈ visited ||
        (!config.descendIntoLibrary && config.patterns.isLibrary (p.function f).name) then none
      else some (f, entry)

/-- A block from its start. -/
def fromStart (p : Program) (b : BlockId) : Position := ⟨b, (p.block b).ops⟩

/-- The innermost frame has nothing left to walk: it is dropped, and if something was found in it,
the path of the frame below ends too. -/
def leave (s : Search) (frame : Frame) (below : List Frame) : Search :=
  match below with
  | [] => { s with stack := [] }
  | caller :: rest =>
    if frame.found then { s with stack := { caller with found := true, cursor := none } :: rest }
    else { s with stack := caller :: rest }

/-- The position in hand is at the end of its block: the successors that were not walked yet are
pending, the first of them next. -/
def endBlock (p : Program) (s : Search) (frame : Frame) (below : List Frame) (b : BlockId) :
    Search :=
  let fresh := (p.block b).successors.filter fun succ => succ ∉ s.blocks
  { s with stack := { frame with pending := fresh.map (fromStart p) ++ frame.pending,
                                 cursor := none } :: below,
           blocks := fresh ++ s.blocks }

/-- Visits an operation; `frame` already stands after it. -/
def visit (p : Program) (config : Config) (q : Query) (s : Search) (frame : Frame)
    (below : List Frame) (o : OpId) : Search :=
  let s := { s with steps := s.steps + 1, stack := frame :: below }
  let stop : Frame := { frame with cursor := none }
  if config.maxSteps < s.steps then { s with truncated := true }
  else match q.members.find? fun member => member.op = o with
    | some second =>
      let (chain, calls) := chainTo q.root s.entries frame.function
      { s with stack := { stop with found := true } :: below,
               reports := s.reports ++ [{ first := q.site, second := second, chain := chain,
                                          calls := calls }] }
    | none =>
      if o ∈ q.releases then { s with stack := stop :: below }
      else match enterable? p config s.functions (p.op o) with
        | none => s
        | some (f, entry) =>
          { s with stack := { function := f, pending := [fromStart p entry] } :: frame :: below,
                   functions := f :: s.functions,
                   entries := ⟨f, frame.function, o⟩ :: s.entries,
                   blocks := entry :: s.blocks }

/-- One move with a position in hand. -/
def walk (p : Program) (config : Config) (q : Query) (s : Search) (frame : Frame)
    (below : List Frame) (position : Position) : Search :=
  match position.rest with
  | [] => s.endBlock p frame below position.block
  | o :: rest => s.visit p config q { frame with cursor := some ⟨position.block, rest⟩ } below o

/-- One move of the search; none when it is over. -/
def advance (p : Program) (config : Config) (q : Query) (s : Search) : Option Search :=
  if s.truncated then none
  else match s.stack with
    | [] => none
    | frame :: below =>
      match frame.cursor with
      | some position => some (s.walk p config q frame below position)
      | none =>
        match frame.pending with
        | [] => some (s.leave frame below)
        | position :: pending =>
          some (s.walk p config q { frame with pending := pending } below position)

/-- Moves until the search is over. -/
def run (p : Program) (config : Config) (q : Query) : (fuel : Nat) → Search → Search
  | 0, s => s
  | fuel + 1, s => match s.advance p config q with
    | none => s
    | some s => run p config q fuel s

end Search

namespace Program

/-- The number of operations in all blocks. -/
def opSlots (p : Program) : Nat :=
  p.nodes.foldl (fun n node => match node with
    | .block b => n + b.ops.length
    | _ => n) 0

/-- A bound on the moves of a query: each block and each function's entry is taken up once, and
costs at most a move for each of its operations and two more. -/
def moveBound (p : Program) : Nat := (p.nodes.size + 1) * (p.opSlots + 3)

/-- The members of a group that a query looks for: at each operation the one with the least key. -/
def queryMembers (group : List LockSite) : List LockSite := sortBy LockSite.less group

/-- The start of a query: right after the site. -/
def startSearch (p : Program) (site : LockSite) (f : FunctionId) (b : BlockId) : Search :=
  let rest := ((p.block b).ops.dropWhile (· ≠ site.op)).drop 1
  { stack := [{ function := f, pending := [⟨b, rest⟩] }], functions := [f] }

/-- Why a query cannot start. -/
inductive QueryFault where
  /-- The call of the site stands in no function. -/
  | detached (op : OpId)
  deriving DecidableEq, Repr

def QueryFault.message : QueryFault → String
  | detached op => s!"lock call #{op} is not attached to a function"

/-- Searches for an acquisition by a member of the group while the site's lock is held. Without a
group there is nothing to search for. -/
def query (p : Program) (config : Config) (site : LockSite) (group : List LockSite)
    (releases : List OpId) : Except QueryFault QueryResult :=
  if group.isEmpty then .ok {}
  else match (p.op site.op).block with
    | none => .error (.detached site.op)
    | some b =>
      let f := (p.block b).function
      let q : Query := { site := site, root := f, members := queryMembers group,
                         releases := releases }
      let s := Search.run p config q p.moveBound (p.startSearch site f b)
      .ok { reports := s.reports, truncated := s.truncated, steps := s.steps }

end Program
end Relock
