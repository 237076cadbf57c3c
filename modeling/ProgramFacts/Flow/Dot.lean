import ProgramFacts.Flow.Graph
import ProgramFacts.Program.Display
import ProgramFacts.Text.Label

/-! The control-flow graph as a description that graph drawing tools read: a line per statement,
labelled with its text, and a line per edge.  A graph with a statement whose text has no end has no
such description. -/

namespace ProgramFacts.Flow.FlowGraph

open Program

/-- The label of a statement, before it is escaped. -/
def nodeLabel? (g : Arena) (id : StmtId) : Option String :=
  (g.stmtText? id).map fun text => id.text ++ ": " ++ text

/-- The line of the statement at position `i`, which has the label `label`. -/
def nodeLine (i : Nat) (label : String) : String :=
  "    " ++ toString i ++ " [ label = \"" ++ Text.label label ++ "\"]\n"

/-- The line of an edge, whose ends are written as positions. -/
def edgeLine (c : FlowGraph) (e : StmtId × StmtId) : String :=
  "    " ++ toString (c.nodes.idxOf e.1) ++ " -> " ++ toString (c.nodes.idxOf e.2) ++ " [ ]\n"

def dot? (c : FlowGraph) (g : Arena) : Option String := do
  let labels ← c.nodes.mapM (nodeLabel? g)
  return "digraph \x7b\n" ++ String.join (labels.mapIdx nodeLine) ++
    String.join (c.edges.map c.edgeLine) ++ "\x7d\n"

end ProgramFacts.Flow.FlowGraph
