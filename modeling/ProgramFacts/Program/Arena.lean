import ProgramFacts.Program.Node

/-! The arena: the array of nodes that tokens index.  Look-ups check that a token resolves, and to a
node of the expected kind.  A slot is one operand position of one node; replacing what it holds
changes nothing else. -/

namespace ProgramFacts.Program

/-- Why a look-up in a program fails. -/
inductive Fault
  /-- The token lies past the end of an arena of `size` nodes. -/
  | dangling (id : NodeId) (size : Nat)
  | wrongKind (id : NodeId) (expected found : NodeKind)
  | noSlot (parent : NodeId) (index : Nat)
  /-- A lookup switch with `labels` match values and `targets` case targets. -/
  | unevenSwitch (stmt : StmtId) (labels targets : Nat)
  /-- No method is known to own the statement. -/
  | unowned (stmt : StmtId)
  /-- There is no end to the values or types that are nested in the node.  No look-up fails so: this
  stands for a computation that returns nothing, since it follows them all. -/
  | cyclic (id : NodeId)
deriving DecidableEq, Repr

/-- The text of a fault; where nothing is returned, there is none. -/
def Fault.message? : Fault → Option String
  | dangling id size =>
    some ("Node `" ++ id.text ++ "` does not exist. The graph only holds " ++ toString size ++
      " nodes.")
  | wrongKind id expected found =>
    some ("Node `" ++ id.text ++ "` was expected to be a " ++ expected.name ++ " node, but a " ++
      found.name ++ " node was found.")
  | noSlot parent index =>
    some ("Node `" ++ parent.text ++ "` has no value operand at position " ++ toString index ++ ".")
  | unevenSwitch stmt labels targets =>
    some ("Lookup switch `" ++ stmt.text ++ "` has " ++ toString labels ++ " match values but " ++
      toString targets ++ " case targets.")
  | unowned stmt =>
    some ("Statement `" ++ stmt.text ++ "` has no owning method. Every statement reachable from " ++
      "the control-flow graph must be registered with its method.")
  | cyclic _ => none

structure Slot where
  parent : NodeId
  index : Nat
deriving DecidableEq, Repr

/-- The nodes of a program, in allocation order. -/
structure Arena where
  nodes : Array Node
deriving DecidableEq, Repr

namespace Arena

def empty : Arena := ⟨#[]⟩

def size (g : Arena) : Nat := g.nodes.size

def node? (g : Arena) (id : NodeId) : Option Node := g.nodes[id.index]?

/-- The node that a token resolves to, or the fault that it dangles. -/
def node (g : Arena) (id : NodeId) : Except Fault Node :=
  match g.node? id with
  | some n => .ok n
  | none => .error (.dangling id g.size)

/-- The content of a node of kind `expected`, which `content` gives for the nodes of that kind. -/
def resolve {α : Type} (g : Arena) (expected : NodeKind) (content : Node → Option α)
    (id : NodeId) : Except Fault α :=
  match g.node? id with
  | none => .error (.dangling id g.size)
  | some n =>
    match content n with
    | some a => .ok a
    | none => .error (.wrongKind id expected n.kind)

theorem index_lt_of_resolve {α : Type} {g : Arena} {expected : NodeKind}
    {content : Node → Option α} {id : NodeId} {a : α}
    (h : g.resolve expected content id = .ok a) : id.index < g.size := by
  unfold resolve at h
  split at h
  · contradiction
  · rename_i n hn
    exact (Array.getElem?_eq_some_iff.mp hn).1

theorem resolve_eq_ok {α : Type} {g : Arena} {expected : NodeKind} {content : Node → Option α}
    {inject : α → Node} (hc : ∀ n a, content n = some a ↔ n = inject a) {id : NodeId} {a : α} :
    g.resolve expected content id = .ok a ↔ g.node? id = some (inject a) := by
  unfold resolve
  cases g.node? id with
  | none => simp
  | some n => cases hn : content n <;> simp [hn, ← hc]

def stmt (g : Arena) : StmtId → Except Fault Stmt :=
  g.resolve .stmt fun | .stmt s => some s | _ => none

def value (g : Arena) : ValueId → Except Fault Value :=
  g.resolve .value fun | .value v => some v | _ => none

def type (g : Arena) : TypeId → Except Fault Ty :=
  g.resolve .type fun | .type t => some t | _ => none

def method (g : Arena) : MethodId → Except Fault Method :=
  g.resolve .method fun | .method m => some m | _ => none

def field (g : Arena) : FieldId → Except Fault Field :=
  g.resolve .field fun | .field f => some f | _ => none

theorem stmt_eq_ok {g : Arena} {id : StmtId} {s : Stmt} :
    g.stmt id = .ok s ↔ g.node? id = some (.stmt s) :=
  resolve_eq_ok fun n _ => by cases n <;> simp

theorem value_eq_ok {g : Arena} {id : ValueId} {v : Value} :
    g.value id = .ok v ↔ g.node? id = some (.value v) :=
  resolve_eq_ok fun n _ => by cases n <;> simp

theorem type_eq_ok {g : Arena} {id : TypeId} {t : Ty} :
    g.type id = .ok t ↔ g.node? id = some (.type t) :=
  resolve_eq_ok fun n _ => by cases n <;> simp

theorem method_eq_ok {g : Arena} {id : MethodId} {m : Method} :
    g.method id = .ok m ↔ g.node? id = some (.method m) :=
  resolve_eq_ok fun n _ => by cases n <;> simp

theorem field_eq_ok {g : Arena} {id : FieldId} {f : Field} :
    g.field id = .ok f ↔ g.node? id = some (.field f) :=
  resolve_eq_ok fun n _ => by cases n <;> simp

/-- Appends a node and gives its token, which is the former size as a word. -/
def alloc (g : Arena) (n : Node) : NodeId × Arena := (.ofIndex g.size, ⟨g.nodes.push n⟩)

/-- Puts `n` at a token that resolves. -/
def put (g : Arena) (id : NodeId) (n : Node) : Arena := ⟨g.nodes.setIfInBounds id.index n⟩

/-- Puts `n` at a token that resolves to a node of the same kind. -/
def overwrite (g : Arena) (id : NodeId) (n : Node) : Except Fault Arena := do
  let old ← g.node id
  if old.kind = n.kind then
    return g.put id n
  else
    throw (.wrongKind id n.kind old.kind)

/-- Replaces the content of a value node and gives the former content. -/
def overwriteValue (g : Arena) (id : ValueId) (v : Value) : Except Fault (Value × Arena) := do
  let old ← g.value id
  return (old, g.put id (.value v))

def slot (g : Arena) (s : Slot) : Except Fault ValueId := do
  let n ← g.node s.parent
  match n.operands[s.index]? with
  | some id => return id
  | none => throw (.noSlot s.parent s.index)

/-- Puts a value into a slot and gives the value that was there. -/
def replaceSlot (g : Arena) (s : Slot) (v : ValueId) : Except Fault (ValueId × Arena) := do
  let _ ← g.value v
  let n ← g.node s.parent
  match n.operands[s.index]? with
  | some old =>
    return (old, g.put s.parent (n.mapOperands fun i x => if i = s.index then v else x))
  | none => throw (.noSlot s.parent s.index)

/-- How often a value is mentioned, as an operand or as a case label, in the whole arena. -/
def referenceCount (g : Arena) (id : ValueId) : Nat :=
  (g.nodes.toList.flatMap Node.mentions).count id

/-- The tokens below the size of both arenas whose nodes differ. -/
def changed (old new : Arena) : List NodeId :=
  ((old.nodes.toList.zip new.nodes.toList).zipIdx.filter fun p => !p.1.1.same p.1.2).map fun p =>
    .ofIndex p.2

/-- Equality of arenas, with floating-point constants compared as numbers. -/
def same (g h : Arena) : Bool := g.size == h.size && (g.changed h).isEmpty

end Arena

end ProgramFacts.Program
