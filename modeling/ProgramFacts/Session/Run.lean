import ProgramFacts.Extraction.Pass
import ProgramFacts.Session.Config
import ProgramFacts.Session.Sink

/-! Sessions.  An iteration extracts the facts of the program and gives their delta against the
iteration before to the sink; then, unless it was the last one that the budget allows, the program
is mutated once and the next iteration begins.  A session ends when no rule applies or the budget is
used up, or with the first failure of extraction or mutation. -/

namespace ProgramFacts.Session

open Program ProgramFacts.Flow ProgramFacts.Fact Mutation ProgramFacts.Random

/-- Why a session ended. -/
inductive Termination
  /-- No rule applied any more. -/
  | exhausted
  | budgetReached
deriving DecidableEq, Repr

def Termination.name : Termination → String
  | .exhausted => "Exhausted"
  | .budgetReached => "BudgetReached"

structure Report where
  iterations : Nat
  /-- The applied mutations, in order. -/
  mutations : List Edit
  persistenceFailures : Nat
  termination : Termination
deriving DecidableEq, Repr

structure State (σ : Type) where
  arena : Arena
  generator : Generator
  sink : σ
  /-- The facts of the iteration before. -/
  previous : Option Store
  /-- The applied mutations, in order. -/
  mutations : List Edit
  persistenceFailures : Nat
  /-- The messages so far, the latest first. -/
  log : List Message
  /-- The questions that rules were asked, the latest first. -/
  asked : List Query

abbrev Run (σ α : Type) := ExceptT Failure (StateM (State σ)) α

structure Setup (σ : Type) where
  config : Config
  mutator : Mutator
  flow : FlowGraph
  sink : Sink σ

variable {σ : Type}

/-- The setup with the built-in rules; replacements are stored as the settings say. -/
def Setup.builtIn (config : Config) (flow : FlowGraph) (sink : Sink σ) : Setup σ :=
  ⟨config, .builtIn config.identityPolicy, flow, sink⟩

def say (messages : List Message) : Run σ Unit :=
  modify fun s => { s with log := messages.reverse ++ s.log }

/-- The message that a failure of the sink is passed over. -/
def ignoredMessage (failure : Failure) : Message :=
  ⟨.warn, "Ignoring persistence failure: " ++ failure.message?.getD ""⟩

/-- Runs an operation of the sink; a failure is counted or ends the session, as the policy says. -/
def useSink (policy : FailurePolicy) (operation : σ → SinkStep σ) : Run σ Unit := do
  let step := operation (← get).sink
  modify fun s => { s with sink := step.state }
  say step.log
  match step.result, policy with
  | .ok (), _ => return
  | .error failure, .abort => throw failure
  | .error failure, .proceed =>
    say [ignoredMessage failure]
    modify fun s => { s with persistenceFailures := s.persistenceFailures + 1 }

def iterationMessage (iteration : Nat) (current : Store) (d : Delta) : Message :=
  ⟨.info, "Iteration " ++ toString iteration ++ ": " ++ toString current.tupleCount ++
    " tuples, " ++ toString d.size ++ " changed relations"⟩

/-- Extracts the facts of the program and gives their delta to the sink. -/
def observe (u : Setup σ) (iteration : Nat) : Run σ Unit := do
  let (facts, log) := Extraction.extractLogged (← get).arena u.flow
  say log
  let current ← (facts : Except Failure Store)
  let d := Delta.between (← get).previous (some current)
  say [d.message, iterationMessage iteration current d]
  useSink u.config.persistenceFailure (u.sink.persist iteration d)
  modify fun s => { s with previous := some current }

/-- Mutates the program once; says whether a rule applied. -/
def advance (u : Setup σ) : Run σ Bool := do
  let s ← get
  let attempt := u.mutator.mutate s.arena u.flow s.generator
  set { s with
    arena := attempt.arena
    generator := attempt.generator
    log := attempt.log.reverse ++ s.log
    asked := attempt.asked.reverse ++ s.asked }
  match ← (attempt.result : Except Failure (Option Edit)) with
  | none => return false
  | some m =>
    modify fun s => { s with mutations := s.mutations ++ [m] }
    return true

/-- Iterations from `iteration` on, of which `left` more may follow the first; gives their number
with those before, and why they ended. -/
def iterate (u : Setup σ) : (left iteration : Nat) → Run σ (Nat × Termination)
  | 0, iteration => do
    observe u iteration
    return (iteration + 1, .budgetReached)
  | left + 1, iteration => do
    observe u iteration
    if ← advance u then iterate u left (iteration + 1)
    else return (iteration + 1, .exhausted)

def endMessage (iterations : Nat) (t : Termination) (mutations : Nat) : Message :=
  ⟨.info, "Session finished after " ++ toString iterations ++ " iterations (" ++ t.name ++ "), " ++
    toString mutations ++ " mutations applied"⟩

def session (u : Setup σ) : Run σ Report := do
  useSink u.config.persistenceFailure u.sink.reset
  let (iterations, t) ← iterate u u.config.iterationBudget.toNat 0
  let s ← get
  say [endMessage iterations t s.mutations.length]
  return ⟨iterations, s.mutations, s.persistenceFailures, t⟩

structure Outcome (σ : Type) where
  report : Except Failure Report
  arena : Arena
  sink : σ
  log : List Message
  asked : List Query

def State.initial (config : Config) (g : Arena) (sink : σ) : State σ :=
  ⟨g, .ofSeed config.seed, sink, none, [], 0, [], []⟩

/-- Runs a session on a program, with a sink in the given state. -/
def run (u : Setup σ) (g : Arena) (sink : σ) : Outcome σ :=
  let (report, s) := (session u).run.run (.initial u.config g sink)
  ⟨report, s.arena, s.sink, s.log.reverse, s.asked.reverse⟩

end ProgramFacts.Session
