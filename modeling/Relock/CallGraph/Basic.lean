import Relock.Program.Printer

/-!
# Call graphs

The functions of a program with one edge for each call. A call whose callee is not known goes to the
sink, whose number 0 no function has. Nodes are in order of creation, and edges in program order.
-/

namespace Relock

/-- A call: the function it stands in, the node it goes to and the operation. -/
structure CallEdge where
  caller : FunctionId
  callee : Nat
  op : OpId
  deriving DecidableEq, Repr, Inhabited

/-- The calls of a program. -/
structure CallGraph where
  program : Program
  nodes : List FunctionId
  edges : List CallEdge
  deriving Inhabited

/-- The node that calls of unknown functions go to. -/
def CallGraph.sink : Nat := 0

namespace Program

/-- The edge of a call. -/
def callEdge (p : Program) (f : FunctionId) (o : OpId) : CallEdge :=
  { caller := f, callee := (p.op o).callee.function?.getD CallGraph.sink, op := o }

/-- The call graph of a program. -/
def callGraph (p : Program) : CallGraph :=
  { program := p, nodes := p.functionIds,
    edges := p.definedFunctions.flatMap fun f => (p.callsOf f).map (p.callEdge f) }

end Program

namespace CallGraph

/-- The edges that leave a node. -/
def edgesFrom (g : CallGraph) (n : Nat) : List CallEdge := g.edges.filter fun e => e.caller = n

/-- The edges that enter a node. -/
def edgesTo (g : CallGraph) (n : Nat) : List CallEdge := g.edges.filter fun e => e.callee = n

/-- Removes repetitions and keeps each first occurrence. -/
def distinct (ns : List Nat) : List Nat :=
  ns.foldl (fun seen n => if n ∈ seen then seen else seen ++ [n]) []

/-- The nodes that a node calls, in order of the first call. -/
def callees (g : CallGraph) (n : Nat) : List Nat := distinct ((g.edgesFrom n).map (·.callee))

/-- The nodes that call a node, in order of the first call. -/
def callers (g : CallGraph) (n : Nat) : List Nat := distinct ((g.edgesTo n).map (·.caller))

/-- Whether a node calls itself. -/
def isRecursive (g : CallGraph) (n : Nat) : Bool := (g.edgesFrom n).any fun e => e.callee = n

/-- The functions that a function calls, without the sink. -/
def calledFunctions (g : CallGraph) (f : FunctionId) : List FunctionId :=
  (g.callees f).filter (· ≠ sink)

/-- The calls of a function, in program order. -/
def callSitesOf (g : CallGraph) (f : FunctionId) : List OpId := (g.edgesTo f).map (·.op)

/-- The edge of a call. -/
def edgeFor? (g : CallGraph) (o : OpId) : Option CallEdge := g.edges.reverse.find? fun e => e.op = o

/-! ## Functions called directly or indirectly -/

/-- Walks breadth first from a queue of functions; `order` holds the functions met, in order. Each
function enters the queue once, so their number and one more is fuel enough. -/
def reachFrom (g : CallGraph) (start : FunctionId) : (fuel : Nat) →
    (queue order : List FunctionId) → List FunctionId
  | 0, _, order => order
  | _ + 1, [], order => order
  | fuel + 1, f :: queue, order =>
    let fresh := (g.calledFunctions f).filter fun h => h ≠ start && h ∉ order
    reachFrom g start fuel (queue ++ fresh) (order ++ fresh)

/-- The functions that a function reaches by calls, itself left out, nearest first. -/
def transitiveCallees (g : CallGraph) (f : FunctionId) : List FunctionId :=
  g.reachFrom f (g.nodes.length + 1) [f] []

/-! ## Texts -/

/-- What a node is. -/
inductive NodeKind where
  | function | external | unknown
  deriving DecidableEq, Repr, Inhabited

def NodeKind.name : NodeKind → String
  | function => "function"
  | external => "external"
  | unknown => "unknown"

def kindOf (g : CallGraph) (n : Nat) : NodeKind :=
  if n = sink then .unknown
  else if (g.program.function n).isDeclaration then .external
  else .function

def nameOf (g : CallGraph) (n : Nat) : String := if n = sink then "<unknown>"
    else (g.program.function n).name

def nodeText (g : CallGraph) (n : Nat) : String :=
  s!"CallGraphNode({Text.quoted (g.nameOf n)}, kind={(g.kindOf n).name})"

def edgeText (g : CallGraph) (e : CallEdge) : String :=
  let place := match (g.program.op e.op).location with
    | some loc => " @ " ++ loc.text
    | none => ""
  s!"CallGraphEdge({g.nameOf e.caller} -> {g.nameOf e.callee}{place})"

def text (g : CallGraph) : String := s!"CallGraph(nodes={g.nodes.length}, edges={g.edges.length})"

end CallGraph
end Relock
