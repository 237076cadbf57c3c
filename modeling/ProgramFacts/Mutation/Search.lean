import ProgramFacts.Flow.Graph
import ProgramFacts.Mutation.Rule
import ProgramFacts.Program.Progress

/-! The search for a position that a rule applies to.  Statements are visited depth first from every
registered statement, each at most once: first their operands in order, a value before its
sub-values, and then their targets in order.  At each position every rule is asked, in order, and
the first position that a rule applies to is found. -/

namespace ProgramFacts.Mutation

open Program ProgramFacts.Flow

/-- A question to a rule: whether it applies to a value inside the given nodes. -/
structure Query where
  /-- The place of the rule in its list. -/
  rule : Nat
  node : ValueId
  ancestors : List NodeId
deriving DecidableEq, Repr

/-- A position that rules apply to: the rules that do, in order, of which there is at least one. -/
structure Position where
  slot : Slot
  node : ValueId
  firstRule : Rule
  otherRules : List Rule

def Position.rules (p : Position) : List Rule := p.firstRule :: p.otherRules

/-- A computation that records the questions that it asks, the latest first, and may fail. -/
abbrev Inquiry (α : Type) := ExceptT Failure (StateM (List Query)) α

def askRule (g : Arena) (node : ValueId) (ancestors : List NodeId) (rule : Rule) (place : Nat) :
    Inquiry Bool := do
  modify (⟨place, node, ancestors⟩ :: ·)
  rule.applies g node ancestors

/-- Asks rules in order, the first of which has the given place; gives those that apply. -/
def askRules (g : Arena) (node : ValueId) (ancestors : List NodeId) :
    List Rule → Nat → Inquiry (List Rule)
  | [], _ => return []
  | rule :: rules, place => do
    let here ← askRule g node ancestors rule place
    let later ← askRules g node ancestors rules (place + 1)
    return if here then rule :: later else later

def firstSome {α β : Type} (attempt : α → Inquiry (Option β)) : List α → Inquiry (Option β)
  | [] => return none
  | a :: rest => do
    match ← attempt a with
    | some b => return some b
    | none => firstSome attempt rest

/-- The slots of a node with `count` operands. -/
def slotsOf (parent : NodeId) (count : Nat) : List Slot :=
  (List.range count).map fun index => ⟨parent, index⟩

/-- Searches the value in a slot and its sub-values, at most `depth` deep.  Only values that are
nested in themselves run out of the depth of a search; the search of these has no end, unless a rule
applies to one of them. -/
def searchValue (g : Arena) (rules : List Rule) :
    Nat → Slot → List NodeId → Inquiry (Option Position)
  | 0, slot, _ => throw (.ofFault (.cyclic slot.parent))
  | depth + 1, slot, ancestors => do
    let node ← lookUp (g.slot slot)
    let v ← lookUp (g.value node)
    match ← askRules g node ancestors rules 0 with
    | [] =>
      firstSome (fun child => searchValue g rules depth child (ancestors ++ [node]))
        (slotsOf node v.operands.length)
    | first :: others => return some ⟨slot, node, first, others⟩

def searchOperands (g : Arena) (rules : List Rule) (id : StmtId) (s : Stmt)
    (ancestors : List NodeId) : Inquiry (Option Position) :=
  firstSome (fun slot => searchValue g rules (g.size + 1) slot ancestors)
    (slotsOf id s.operands.length)

/-- Searches the statements of a stack, and the targets that these add to it.  A statement waits on
the stack with the number of statements around it; `path` begins with these, as the statement on
top of the stack was added when they had just been searched. -/
def searchStack (g : Arena) (rules : List Rule) (visited : List StmtId) (path : List NodeId)
    (stack : List (StmtId × Nat)) : Inquiry (Option Position × List StmtId) :=
  match stack with
  | [] => return (none, visited)
  | (id, depth) :: rest =>
    if _hnew : id ∈ visited then searchStack g rules visited path rest
    else
      match _h : g.stmt id with
      | .error fault => throw (.ofFault fault)
      | .ok s => do
        let path := path.take depth ++ [id]
        match ← searchOperands g rules id s path with
        | some position => return (some position, id :: visited)
        | none =>
          searchStack g rules (id :: visited) path
            (s.targets.map (fun target => (target, depth + 1)) ++ rest)
termination_by (unvisited g visited, stack.length)
decreasing_by
  · exact Prod.Lex.right _ (by simp)
  · exact Prod.Lex.left _ _ (unvisited_cons_lt (Arena.index_lt_of_resolve _h) _hnew)

def searchRoots (g : Arena) (rules : List Rule) :
    List StmtId → List StmtId → Inquiry (Option Position)
  | [], _ => return none
  | root :: roots, visited => do
    match ← searchStack g rules visited [] [(root, 0)] with
    | (some position, _) => return some position
    | (none, visited) => searchRoots g rules roots visited

def search (g : Arena) (c : FlowGraph) (rules : List Rule) : Inquiry (Option Position) :=
  searchRoots g rules c.nodes []

/-- The result of an inquiry, and the questions that it asked, in order. -/
def Inquiry.ask {α : Type} (i : Inquiry α) : Except Failure α × List Query :=
  let (result, asked) := i.run.run []
  (result, asked.reverse)

end ProgramFacts.Mutation
