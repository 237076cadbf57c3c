import ProgramFacts.Log
import ProgramFacts.Mutation.Search
import ProgramFacts.Program.Display
import ProgramFacts.Random.Generator

/-! One mutation: the first position that a rule applies to is found, one of the rules that apply
there is drawn, and the value that it gives is stored.  A mutation changes one slot, or the content
of a value that no other slot holds.  The message about it has the texts of the value before and
after, so an attempt does not come to an end where one of these texts does not. -/

namespace ProgramFacts.Mutation

open Program ProgramFacts.Flow ProgramFacts.Random

/-- How the value that a rule gives is stored. -/
inductive IdentityPolicy
  /-- As a new node, which takes the old node's place in the slot. -/
  | fresh
  /-- As the new content of the old node, unless that is mentioned elsewhere too. -/
  | preserve
deriving DecidableEq, Repr

/-- The rules of a search, and how replacements are stored. -/
structure Mutator where
  rules : List Rule
  policy : IdentityPolicy

def Mutator.builtIn (policy : IdentityPolicy) : Mutator := ⟨builtInRules, policy⟩

/-- An applied mutation: the rule, the slot, and the nodes that the slot held before and holds
after. -/
structure Edit where
  rule : String
  slot : Slot
  replaced : ValueId
  replacement : ValueId
deriving DecidableEq, Repr

/-- Whether a value keeps its node when it is replaced. -/
def keepsNode (policy : IdentityPolicy) (g : Arena) (node : ValueId) : Bool :=
  policy = .preserve && g.referenceCount node ≤ 1

/-- Stores `v` as the content of a node, or as a new node in the slot; gives the node. -/
def storeValue (g : Arena) (slot : Slot) (node : ValueId) (v : Value) (inPlace : Bool) :
    Except Fault ValueId × Arena :=
  if inPlace then
    match g.overwriteValue node v with
    | .ok (_, g) => (.ok node, g)
    | .error fault => (.error fault, g)
  else
    let (id, g) := g.alloc (.value v)
    match g.replaceSlot slot id with
    | .ok (_, g) => (.ok id, g)
    | .error fault => (.error fault, g)

def nothingMessage : Message := ⟨.debug, "No rewrite rule applies"⟩

/-- The message that a node cannot keep its identity. -/
def sharedMessage (node : ValueId) : Message :=
  ⟨.debug, node.text ++ " is shared, allocating its replacement"⟩

/-- The message that a mutation was applied, with the texts of the value before and after. -/
def Edit.message (m : Edit) (before after : String) : Message :=
  ⟨.info, "Rewrote `" ++ before ++ "` (" ++ m.replaced.text ++ ") into `" ++ after ++ "` (" ++
    m.replacement.text ++ ") at " ++ m.slot.parent.text ++ " operand " ++ toString m.slot.index ++
    " with " ++ m.rule⟩

structure Attempt where
  /-- The mutation, if a rule applied. -/
  result : Except Failure (Option Edit)
  arena : Arena
  generator : Generator
  log : List Message
  /-- The questions that the rules were asked, in order. -/
  asked : List Query

/-- The outcome of writing the text of a value that has none: nothing is returned, so `g` stands for
an arena that nobody gets to see. -/
def endless (g : Arena) (node : ValueId) : Except Failure Edit × Arena × List Message :=
  (.error (.ofFault (.cyclic node)), g, [])

/-- Replaces a value by what a rule gives for it. -/
def applyRule (policy : IdentityPolicy) (g : Arena) (slot : Slot) (node : ValueId) (rule : Rule) :
    Except Failure Edit × Arena × List Message :=
  match rule.replacement g node, g.valueText? node with
  | .error failure, _ => (.error failure, g, [])
  | .ok _, none => endless g node
  | .ok v, some before =>
    let inPlace := keepsNode policy g node
    let log := if policy = .preserve && !inPlace then [sharedMessage node] else []
    match storeValue g slot node v inPlace with
    | (.error fault, g') => (.error (.ofFault fault), g', log)
    | (.ok replacement, g') =>
      match g'.valueText? replacement with
      | none => endless g replacement
      | some after =>
        let m : Edit := ⟨rule.name, slot, node, replacement⟩
        (.ok m, g', log ++ [m.message before after])

def Mutator.mutate (s : Mutator) (g : Arena) (c : FlowGraph) (r : Generator) : Attempt :=
  let (found, asked) := (search g c s.rules).ask
  match found with
  | .error failure => ⟨.error failure, g, r, [], asked⟩
  | .ok none => ⟨.ok none, g, r, [nothingMessage], asked⟩
  | .ok (some p) =>
    let (choice, r) := r.below p.rules.length
    let (result, g, log) := applyRule s.policy g p.slot p.node (p.rules.getD choice p.firstRule)
    ⟨result.map some, g, r, log, asked⟩

end ProgramFacts.Mutation
