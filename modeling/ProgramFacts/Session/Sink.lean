import ProgramFacts.Fact.Delta
import ProgramFacts.Failure
import ProgramFacts.Files.Tree

/-! Sinks: where the deltas of a session go.  A sink is cleared at the start of a session and then
takes one delta per iteration; both may fail.  One sink keeps the texts of the deltas in memory, and
one writes them to a directory, a file for each relation. -/

namespace ProgramFacts.Session

open ProgramFacts.Fact Files

structure SinkStep (σ : Type) where
  result : Except Failure Unit
  state : σ
  log : List Message

/-- The operations of a sink with states of type `σ`. -/
structure Sink (σ : Type) where
  /-- Discards what an earlier session left. -/
  reset : σ → SinkStep σ
  /-- Takes the delta of an iteration. -/
  persist : Nat → Delta → σ → SinkStep σ

/-- The texts of the changed relations of an iteration. -/
structure Batch where
  iteration : Nat
  blocks : List (String × String)
deriving DecidableEq, Repr

structure Memory where
  resets : Nat
  batches : List Batch
deriving DecidableEq, Repr

namespace Memory

/-- The memory of a sink that was not used. -/
def empty : Memory := ⟨0, []⟩

def batch? (m : Memory) (iteration : Nat) : Option Batch :=
  m.batches.find? fun b => b.iteration == iteration

def clear (m : Memory) : Memory := ⟨m.resets + 1, []⟩

def add (m : Memory) (iteration : Nat) (d : Delta) : Memory :=
  { m with batches := m.batches ++ [⟨iteration, d.blocks⟩] }

def sink : Sink Memory where
  reset m := ⟨.ok (), m.clear, []⟩
  persist iteration d m := ⟨.ok (), m.add iteration d, []⟩

end Memory

namespace Directory

def iterationPath (root : String) (iteration : Nat) : String := join root (toString iteration)

def relationPath (directory name : String) : String := join directory (name ++ ".facts")

/-- Removes what a path leads to, if anything, and makes an empty directory there. -/
def renew (path : String) (t : Tree) : Except Failure Unit × Tree :=
  match if t.exists? path then t.removeAll path else .ok t with
  | .error cause => (.error (.persistence path cause), t)
  | .ok t =>
    match t.createAll path with
    | (.error cause, t) => (.error (.persistence path cause), t)
    | (.ok (), t) => (.ok (), t)

/-- Writes blocks into a directory, in order, up to the first that fails. -/
def writeBlocks (directory : String) : List (String × String) → Tree → SinkStep Tree
  | [], t => ⟨.ok (), t, []⟩
  | (name, block) :: rest, t =>
    let path := relationPath directory name
    let message : Message := ⟨.trace, "Writing '" ++ path ++ "'"⟩
    match t.write path block.toUTF8 with
    | .error cause => ⟨.error (.persistence path cause), t, [message]⟩
    | .ok t =>
      let step := writeBlocks directory rest t
      { step with log := message :: step.log }

/-- The sink that writes the relations of each iteration to a directory below `root`. -/
def sink (root : String) : Sink Tree where
  reset t :=
    let (result, t') := renew root t
    ⟨result, t', if t.exists? root then
      [⟨.debug, "Removing previous output under '" ++ root ++ "'"⟩] else []⟩
  persist iteration d t :=
    let directory := iterationPath root iteration
    match renew directory t with
    | (.error failure, t) => ⟨.error failure, t, []⟩
    | (.ok (), t) => writeBlocks directory d.blocks t

end Directory

end ProgramFacts.Session
