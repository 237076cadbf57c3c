import ProgramFacts.Extraction.Row
import ProgramFacts.Failure
import ProgramFacts.Flow.Graph
import ProgramFacts.Program.Progress

/-! The extraction pass.  Every registered statement is emitted, and with it every statement that
its targets lead to and everything that these refer to.  Local variables, constants, types, methods
and fields are defined once per pass; other values are defined wherever they occur.  Statements
that a pass has begun are not emitted again as targets, so cyclic jumps come to an end. -/

namespace ProgramFacts.Extraction

open Program ProgramFacts.Fact ProgramFacts.Flow

/-- A node that a definition refers to, other than a statement. -/
inductive Part
  | value (id : ValueId)
  | type (id : TypeId)
  | method (id : MethodId)
  | field (id : FieldId)
deriving DecidableEq, Repr

def Part.id : Part → NodeId
  | value id | type id | method id | field id => id

/-- What a value refers to, in order; the owner of its statement counts for variables and
parameters. -/
def valueParts (owner : MethodId) : Value → List Part
  | .localVar _ ty => [.method owner, .type ty]
  | .parameterRef _ ty => [.type ty, .method owner]
  | .thisRef ty | .newObject ty => [.type ty]
  | .instanceField base field => [.value base, .field field]
  | .staticField field => [.field field]
  | .instanceInvoke _ base method args => .value base :: .method method :: args.map .value
  | .staticInvoke method args => .method method :: args.map .value
  | .cast op ty | .instanceOf op ty => [.value op, .type ty]
  | .newArray element size => [.type element, .value size]
  | .newMultiArray element sizes => .type element :: sizes.map .value
  | v => v.operands.map .value

def methodParts (m : Method) : List Part := .type m.returnType :: m.parameterTypes.map .type

def typeParts : Ty → List Part
  | .array element => [.type element]
  | _ => []

/-- What a pass has gathered: the rows, latest first, and the nodes that are defined once and are
defined already. -/
structure Gathered where
  rows : List Row
  seen : List NodeId

namespace Gathered

def empty : Gathered := ⟨[], []⟩

def emit (a : Gathered) (rows : List Row) : Gathered := { a with rows := rows.reverse ++ a.rows }

def mark (a : Gathered) (id : NodeId) : Gathered := { a with seen := id :: a.seen }

end Gathered

/-- Gathers the rows of a part and of all that it refers to, at most `depth` deep.  Only values that
are nested in themselves run out of the depth of a pass; their rows have no end. -/
def visit (g : Arena) (owner : MethodId) : Nat → Part → Gathered → Except Fault Gathered
  | 0, part, _ => .error (.cyclic part.id)
  | depth + 1, .value id, a => do
    let v ← g.value id
    let a := a.emit [occurrenceRow id]
    if v.isShared && a.seen.contains id then
      return a
    let a := if v.isShared then a.mark id else a
    (valueParts owner v).foldlM (fun a part => visit g owner depth part a)
      (a.emit (valueRows id owner v))
  | depth + 1, .type id, a =>
    if a.seen.contains id then return a
    else do
      let t ← g.type id
      (typeParts t).foldlM (fun a part => visit g owner depth part a)
        ((a.mark id).emit (typeRows id t))
  | depth + 1, .method id, a =>
    if a.seen.contains id then return a
    else do
      let m ← g.method id
      (methodParts m).foldlM (fun a part => visit g owner depth part a)
        ((a.mark id).emit (methodRows id m))
  | depth + 1, .field id, a =>
    if a.seen.contains id then return a
    else do
      let f ← g.field id
      [Part.type f.ty].foldlM (fun a part => visit g owner depth part a)
        ((a.mark id).emit (fieldRows id f))

/-- More than the length of every chain of parts: a chain visits no value twice, unless the value is
nested in itself, and no other node twice. -/
def depthBound (g : Arena) : Nat := 2 * g.size + 2

/-- Gathers the rows of parts, in order. -/
def visitAll (g : Arena) (owner : MethodId) (parts : List Part) (a : Gathered) :
    Except Fault Gathered :=
  parts.foldlM (fun a part => visit g owner (depthBound g) part a) a

/-- The fault of a switch with a different number of labels and targets. -/
def checkCases (id : StmtId) : Stmt → Except Fault Unit
  | .lookupSwitch _ labels targets _ =>
    if labels.length = targets.length then .ok ()
    else .error (.unevenSwitch id labels.length targets.length)
  | _ => .ok ()

/-- Gathers the rows of a statement and of all that it refers to, other than its targets. -/
def visitStmt (g : Arena) (c : FlowGraph) (id : StmtId) (s : Stmt) (a : Gathered) :
    Except Fault Gathered := do
  let owner ← c.owner id
  let a ← visitAll g owner (.method owner :: s.operands.map .value) (a.emit (stmtRows id owner s))
  checkCases id s
  visitAll g owner (s.labels.map .value) a

/-- A pass that ended early: the statements that it had begun, latest first, and the fault. -/
structure Stop where
  begun : List StmtId
  fault : Fault

/-- What a pass that ended early fails with. -/
def Stop.failure (stop : Stop) : Failure := .ofFault stop.fault

/-- How far a pass has come: the statements that it has begun, latest first, and what it has
gathered. -/
structure Progress where
  begun : List StmtId
  gathered : Gathered

/-- Emits one statement; gives its targets that wait to be emitted, the last one first. -/
def emitStmt (g : Arena) (c : FlowGraph) (id : StmtId) (p : Progress) :
    Except Stop (List StmtId × Progress) :=
  match g.stmt id with
  | .error fault => .error ⟨p.begun, fault⟩
  | .ok s =>
    match visitStmt g c id s p.gathered with
    | .error fault => .error ⟨id :: p.begun, fault⟩
    | .ok a =>
      .ok ((s.targets.filter fun target => !(id :: p.begun).contains target).reverse,
        ⟨id :: p.begun, a⟩)

theorem emitStmt_ok {g : Arena} {c : FlowGraph} {id : StmtId} {p q : Progress}
    {waiting : List StmtId} (h : emitStmt g c id p = .ok (waiting, q)) :
    id.index < g.size ∧ q.begun = id :: p.begun := by
  unfold emitStmt at h
  split at h
  · contradiction
  · rename_i s hs
    refine ⟨Arena.index_lt_of_resolve hs, ?_⟩
    split at h
    · contradiction
    · exact congrArg (fun r => r.2.begun) (Except.ok.inj h).symm

/-- Emits the statements of a stack, and the targets that these add to it, until it is empty.
Statements that have begun are passed over. -/
def drain (g : Arena) (c : FlowGraph) (stack : List StmtId) (p : Progress) :
    Except Stop Progress :=
  match stack with
  | [] => .ok p
  | id :: rest =>
    if _hnew : id ∈ p.begun then drain g c rest p
    else
      match _h : emitStmt g c id p with
      | .error stop => .error stop
      | .ok (waiting, q) => drain g c (waiting ++ rest) q
termination_by (unvisited g p.begun, stack.length)
decreasing_by
  · exact Prod.Lex.right _ (by simp)
  · obtain ⟨hid, hq⟩ := emitStmt_ok _h
    exact Prod.Lex.left _ _ (hq ▸ unvisited_cons_lt hid _hnew)

/-- Emits a registered statement, everything that its targets lead to, and its edges. -/
def emitRoot (g : Arena) (c : FlowGraph) (p : Progress) (root : StmtId) : Except Stop Progress := do
  let (waiting, p) ← emitStmt g c root p
  let p ← drain g c waiting p
  return { p with gathered := p.gathered.emit ((c.successors root).map (edgeRow root)) }

/-- Emits every registered statement, in registration order. -/
def pass (g : Arena) (c : FlowGraph) : Except Stop Progress :=
  c.nodes.foldlM (emitRoot g c) ⟨[], .empty⟩

/-- Inserts a row into the relation of its name. -/
def insertRow (s : Store) (r : Row) : Except ArityMismatch Store :=
  match s.emit r.rel.name r.rel.columns r.tuple with
  | (.ok _, s) => .ok s
  | (.error e, _) => .error e

def collect (rows : List Row) : Except ArityMismatch Store := rows.foldlM insertRow .empty

def result : Except Stop Progress → Except Failure Store
  | .error stop => .error stop.failure
  | .ok p => (collect p.gathered.rows.reverse).mapError .arity

/-- The statements that a pass begins, in order. -/
def begun : Except Stop Progress → List StmtId
  | .error stop => stop.begun.reverse
  | .ok p => p.begun.reverse

/-- The facts of a program, or why it has none. -/
def extract (g : Arena) (c : FlowGraph) : Except Failure Store := result (pass g c)

def stmtMessage (id : StmtId) : Message := ⟨.trace, "Emitting statement " ++ id.text⟩

/-- The message that a store was extracted from `statements` statements. -/
def storeMessage (s : Store) (statements : Nat) : Message :=
  ⟨.debug, "Extracted " ++ toString s.tupleCount ++ " tuples in " ++ toString s.size ++
    " relations from " ++ toString statements ++ " statements"⟩

/-- The facts of a program, with the messages of the pass. -/
def extractLogged (g : Arena) (c : FlowGraph) : Except Failure Store × List Message :=
  let run := pass g c
  let order := begun run
  let facts := result run
  (facts, order.map stmtMessage ++
    match facts with
    | .ok s => [storeMessage s order.eraseDups.length]
    | .error _ => [])

@[simp] theorem extractLogged_fst (g : Arena) (c : FlowGraph) :
    (extractLogged g c).1 = extract g c := rfl

end ProgramFacts.Extraction
