import ProgramFacts.Extraction.Pass
import ProgramFacts.Proofs.Columns

/-! What the facts of a program are about, without the pass that gathers them: the statements that
the registered ones lead to, the values in their operand trees, and the types, methods and fields
that these name; and the rows that the encoding has for all of them. -/

namespace ProgramFacts.Extraction

open Program ProgramFacts.Fact ProgramFacts.Flow

/-- The statements that the registered ones lead to along branch targets. -/
inductive Reached (g : Arena) (c : FlowGraph) : StmtId → Prop
  | node {id : StmtId} : id ∈ c.nodes → Reached g c id
  | target {id target : StmtId} {s : Stmt} :
      Reached g c id → g.stmt id = .ok s → target ∈ s.targets → Reached g c target

/-- A value that holds another one as an operand. -/
def Operand (g : Arena) (v w : ValueId) : Prop := ∃ x, g.value v = .ok x ∧ w ∈ x.operands

/-- The values that a statement mentions: its operands and case labels, their operands, and so
on. -/
inductive Mentions (g : Arena) (id : StmtId) : ValueId → Prop
  | top {s : Stmt} {v : ValueId} :
      g.stmt id = .ok s → v ∈ s.operands ++ s.labels → Mentions g id v
  | operand {v w : ValueId} : Mentions g id v → Operand g v w → Mentions g id w

/-- The kind of node that a part should be. -/
def Part.kind : Part → NodeKind
  | .value _ => .value
  | .type _ => .type
  | .method _ => .method
  | .field _ => .field

/-- The node that a part stands for, which has to be of the part's kind. -/
def Resolves (g : Arena) (p : Part) (n : Node) : Prop := g.node? p.id = some n ∧ n.kind = p.kind

/-- The types, methods and fields that a value names. -/
def valueRefs : Value → List Part
  | .localVar _ ty | .parameterRef _ ty | .thisRef ty | .newObject ty => [.type ty]
  | .cast _ ty | .instanceOf _ ty | .newArray ty _ | .newMultiArray ty _ => [.type ty]
  | .instanceField _ field | .staticField field => [.field field]
  | .instanceInvoke _ _ method _ | .staticInvoke method _ => [.method method]
  | _ => []

/-- The types, methods and fields that a node names. -/
def nodeRefs : Node → List Part
  | .stmt _ => []
  | .value v => valueRefs v
  | .type t => typeParts t
  | .method m => methodParts m
  | .field f => [.type f.ty]

/-- The parts that statements of `S` lead to: their owners, the values that they mention, and what
these and their like name. -/
inductive Met (g : Arena) (c : FlowGraph) (S : StmtId → Prop) : Part → Prop
  | owner {id : StmtId} {m : MethodId} : S id → c.owner id = .ok m → Met g c S (.method m)
  | value {id : StmtId} {v : ValueId} : S id → Mentions g id v → Met g c S (.value v)
  | ref {p q : Part} {n : Node} : Met g c S p → Resolves g p n → q ∈ nodeRefs n → Met g c S q

/-- The first statement of a list that mentions a value. -/
def FirstMention (g : Arena) (order : List StmtId) (v : ValueId) (id : StmtId) : Prop :=
  ∃ before after, order = before ++ id :: after ∧ Mentions g id v ∧ ∀ j ∈ before, ¬Mentions g j v

/-- The arguments of a call. -/
def arguments : Value → List ValueId
  | .instanceInvoke _ _ _ args | .staticInvoke _ args => args
  | _ => []

/-- The rows of the encoding for the statements of `order`, for all that they lead to, and for the
edges `E`. -/
inductive Fact (g : Arena) (c : FlowGraph) (order : List StmtId) (E : List (StmtId × StmtId)) :
    Rel → Tuple → Prop
  | unit {id : StmtId} : id ∈ order → Fact g c order E .unit [token id]
  | methodOfUnit {id : StmtId} {m : MethodId} :
      id ∈ order → c.owner id = .ok m → Fact g c order E .methodOfUnit [token id, token m]
  | stmt {id : StmtId} {s : Stmt} {m : MethodId} {rel : Rel} {t : Tuple} :
      id ∈ order → g.stmt id = .ok s → c.owner id = .ok m → StmtRow id m s ⟨rel, t⟩ →
      Fact g c order E rel t
  | tableCase {id : StmtId} {key : ValueId} {low : Int32} {targets : List StmtId}
      {default target : StmtId} {i : Nat} :
      id ∈ order → g.stmt id = .ok (.tableSwitch key low targets default) →
      targets[i]? = some target →
      Fact g c order E .tableSwitchCases [token id, .int (low.toInt + i), token target]
  | lookupCase {id : StmtId} {key : ValueId} {labels : List ValueId} {targets : List StmtId}
      {default target : StmtId} {label : ValueId} {i : Nat} :
      id ∈ order → g.stmt id = .ok (.lookupSwitch key labels targets default) →
      labels[i]? = some label → targets[i]? = some target →
      Fact g c order E .lookupSwitchCases [token id, token label, token target]
  | edge {source target : StmtId} :
      (source, target) ∈ E → Fact g c order E .controlFlowEdge [token source, token target]
  | value {id : StmtId} {v : ValueId} :
      id ∈ order → Mentions g id v → Fact g c order E .value [token v]
  /-- A reference to a parameter has a row for every owner of a statement that mentions it; the rows
  of other values do not depend on the owner. -/
  | definition {id : StmtId} {v : ValueId} {x : Value} {m : MethodId} {rel : Rel} {t : Tuple} :
      id ∈ order → Mentions g id v → g.value v = .ok x → c.owner id = .ok m →
      ValueRow v m x ⟨rel, t⟩ → Fact g c order E rel t
  | argument {id : StmtId} {v arg : ValueId} {x : Value} {i : Nat} :
      id ∈ order → Mentions g id v → g.value v = .ok x → (arguments x)[i]? = some arg →
      Fact g c order E .invocationArguments [token v, .int i, token arg]
  | size {id : StmtId} {v size : ValueId} {element : TypeId} {sizes : List ValueId} {i : Nat} :
      id ∈ order → Mentions g id v → g.value v = .ok (.newMultiArray element sizes) →
      sizes[i]? = some size → Fact g c order E .newMultiArraySizes [token v, .int i, token size]
  /-- A variable belongs to the owner of the first statement that mentions it. -/
  | methodOfLocal {id : StmtId} {v : ValueId} {name : String} {ty : TypeId} {m : MethodId} :
      FirstMention g order v id → g.value v = .ok (.localVar name ty) → c.owner id = .ok m →
      Fact g c order E .methodOfLocal [token v, token m]
  | method {id : MethodId} {m : Method} :
      Met g c (· ∈ order) (.method id) → g.method id = .ok m →
      Fact g c order E .method
        [token id, .str m.name, .str m.declaringClass, .bool m.isStatic, token m.returnType]
  | parameter {id : MethodId} {m : Method} {ty : TypeId} {i : Nat} :
      Met g c (· ∈ order) (.method id) → g.method id = .ok m → m.parameterTypes[i]? = some ty →
      Fact g c order E .methodParameters [token id, .int i, token ty]
  | field {id : FieldId} {f : Field} :
      Met g c (· ∈ order) (.field id) → g.field id = .ok f →
      Fact g c order E .field [token id, .str f.name, .str f.declaringClass, token f.ty]
  | type {id : TypeId} {ty : Ty} {rel : Rel} {t : Tuple} :
      Met g c (· ∈ order) (.type id) → g.type id = .ok ty → TypeRow id ty ⟨rel, t⟩ →
      Fact g c order E rel t

end ProgramFacts.Extraction
