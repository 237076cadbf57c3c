import ProgramFacts.Log
import ProgramFacts.Program.Arena

/-! The control-flow graph: the registered statements in the order of their first registration, the
edges between them in the order of their first insertion, and the method that owns each
statement. -/

namespace ProgramFacts.Flow

open Program

/-- Statements, the edges between them, and their owners.  No statement and no edge stands twice,
and the ends of every edge are registered. -/
structure FlowGraph where
  nodes : List StmtId
  edges : List (StmtId × StmtId)
  owners : Std.ExtTreeMap StmtId MethodId
  nodes_nodup : nodes.Nodup
  edges_nodup : edges.Nodup
  ends_mem : ∀ e ∈ edges, e.1 ∈ nodes ∧ e.2 ∈ nodes
deriving DecidableEq

namespace FlowGraph

def empty : FlowGraph := ⟨[], [], ∅, .nil, .nil, by simp⟩

/-- Registers a statement; one that is registered keeps its place. -/
def insertNode (c : FlowGraph) (id : StmtId) : FlowGraph :=
  if h : id ∈ c.nodes then c
  else
    { c with
      nodes := c.nodes ++ [id]
      nodes_nodup := (List.perm_append_singleton id c.nodes).nodup_iff.mpr
        (List.nodup_cons.mpr ⟨h, c.nodes_nodup⟩)
      ends_mem := fun e he =>
        ⟨List.mem_append_left _ (c.ends_mem e he).1, List.mem_append_left _ (c.ends_mem e he).2⟩ }

theorem mem_insertNode {c : FlowGraph} {id j : StmtId} :
    j ∈ (c.insertNode id).nodes ↔ j ∈ c.nodes ∨ j = id := by
  unfold insertNode
  split
  · rename_i h
    exact ⟨.inl, fun hj => hj.elim (fun hj => hj) fun hj => hj ▸ h⟩
  · simp

/-- Registers both ends of an edge, and the edge unless it is there. -/
def insertEdge (c : FlowGraph) (source target : StmtId) : FlowGraph :=
  let c := (c.insertNode source).insertNode target
  if h : (source, target) ∈ c.edges then c
  else
    { c with
      edges := c.edges ++ [(source, target)]
      edges_nodup := (List.perm_append_singleton (source, target) c.edges).nodup_iff.mpr
        (List.nodup_cons.mpr ⟨h, c.edges_nodup⟩)
      ends_mem := fun e he => by
        rcases List.mem_append.mp he with he | he
        · exact c.ends_mem e he
        · obtain rfl := List.mem_singleton.mp he
          exact ⟨mem_insertNode.mpr (.inl (mem_insertNode.mpr (.inr rfl))),
            mem_insertNode.mpr (.inr rfl)⟩ }

/-- Makes `method` the owner of a statement. -/
def setOwner (c : FlowGraph) (id : StmtId) (method : MethodId) : FlowGraph :=
  { c with owners := c.owners.insert id method }

def owner (c : FlowGraph) (id : StmtId) : Except Fault MethodId :=
  match c.owners[id]? with
  | some method => .ok method
  | none => .error (.unowned id)

/-- The targets of the edges of a statement, in insertion order. -/
def successors (c : FlowGraph) (id : StmtId) : List StmtId :=
  (c.edges.filter fun e => e.1 == id).map Prod.snd

def register (method : MethodId) (c : FlowGraph) (id : StmtId) : FlowGraph :=
  (c.insertNode id).setOwner id method

/-- The edges of a statement that `next` follows in its body: to `next`, if control may continue
there, and then to each branch target. -/
def jumps (id : StmtId) (s : Stmt) (next : Option StmtId) : List (StmtId × StmtId) :=
  ((if s.fallsThrough then next.toList else []) ++ s.targets).map fun target => (id, target)

/-- Adds the edges of the statements of a body, up to the first token that is no statement. -/
def addJumps (g : Arena) : List StmtId → FlowGraph → Except Fault Unit × FlowGraph
  | [], c => (.ok (), c)
  | id :: rest, c =>
    match g.stmt id with
    | .error fault => (.error fault, c)
    | .ok s =>
      addJumps g rest ((jumps id s rest.head?).foldl (fun c e => c.insertEdge e.1 e.2) c)

/-- Registers the body of a method.  When a token does not resolve, the statements and owners of the
whole body and the edges of the statements before that token stay in the graph. -/
def addBody (c : FlowGraph) (g : Arena) (method : MethodId) (body : List StmtId) :
    Except Fault Unit × FlowGraph :=
  match g.method method with
  | .error fault => (.error fault, c)
  | .ok _ => addJumps g body (body.foldl (register method) c)

def bodyMessage (method : MethodId) (body : List StmtId) : Message :=
  ⟨.trace, "Registered body of method " ++ method.text ++ " with " ++ toString body.length ++
    " statements"⟩

end FlowGraph

end ProgramFacts.Flow
