import Relock.CallGraph.Basic

/-!
# Call graphs as DOT text

One line for each node and each edge, for graph drawing tools. In the names of nodes a double quote
is escaped by a backslash; nothing else is, and the title is written as it is.
-/

namespace Relock.CallGraph

/-- A name between the quotes of a node's label. -/
def dotEscape (name : String) : String :=
  String.ofList (name.toList.flatMap fun c => if c = '"' then ['\\', '"'] else [c])

/-- How nodes of a kind are drawn. -/
def NodeKind.dotStyle : NodeKind → String
  | function => "style=filled, fillcolor=\"#ddeeff\""
  | external => "style=filled, fillcolor=\"#fff3cd\", shape=ellipse"
  | unknown => "style=filled, fillcolor=\"#ffcccc\", shape=diamond"

def dotNode (g : CallGraph) (n : Nat) : String :=
  s!"  \"n{n}\" [label=\"{dotEscape (g.nameOf n)}\", {(g.kindOf n).dotStyle}];"

/-- An edge, labelled with its line if it has a location; a call of the sink is dotted. -/
def dotEdge (g : CallGraph) (e : CallEdge) : String :=
  let line := match (g.program.op e.op).location with
    | some loc => [s!"label=\"{loc.line}\""]
    | none => []
  let attributes := line ++ if e.callee = sink then ["style=dotted, color=red"] else []
  let suffix := if attributes.isEmpty then "" else " [" ++ ", ".intercalate attributes ++ "]"
  s!"  \"n{e.caller}\" -> \"n{e.callee}\"{suffix};"

/-- The nodes that are drawn: the sink only if something calls it. -/
def dotNodes (g : CallGraph) : List Nat := g.nodes ++ if (g.edgesTo sink).isEmpty then []
    else [sink]

/-- The graph as DOT text. An empty title is left out. -/
def dot (g : CallGraph) (title : String) : String :=
  let label := if title.isEmpty then [] else [s!"  label=\"{title}\";"]
  "\n".intercalate (["digraph CallGraph \x7b", "  rankdir=TB;"] ++ label ++
    ["  node [shape=box, fontname=\"Helvetica\", fontsize=10];"] ++ g.dotNodes.map g.dotNode ++
    g.edges.map g.dotEdge ++ ["\x7d"])

end Relock.CallGraph
