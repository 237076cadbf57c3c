import ProgramFacts.Failure
import ProgramFacts.Files.Tree
import ProgramFacts.Session.Config
import ProgramFacts.Toml.Document
import ProgramFacts.Toml.Writer

/-! Settings files of sessions: a line for each setting.  Settings that are missing take their
defaults, and keys that are no settings are passed over. -/

namespace ProgramFacts.Session

open Files Toml

/-- A word, or a table that has the word as its only key with nothing under it. -/
def word? : Item → Option String
  | .string w => some w
  | .table _ [(w, .table _ [])] => some w
  | .table _ [(w, .array [])] => some w
  | _ => none

def number? : Item → Option UInt64
  | .integer n => if 0 ≤ n ∧ n < UInt64.size then some (UInt64.ofNat n.toNat) else none
  | _ => none

def text? : Item → Option String
  | .string s => some s
  | _ => none

/-- Reads a setting, if it is there. -/
def setting {α : Type} (es : Entries) (name : String) (read : Item → Option α) (default : α) :
    Option α :=
  match es.lookup name with
  | some item => read item
  | none => some default

def Config.ofEntries? (es : Entries) : Option Config := do
  let c : Config := {}
  return {
    iterationBudget := ← setting es "iteration_budget" number? c.iterationBudget
    seed := ← setting es "seed" number? c.seed
    identityPolicy :=
      ← setting es "identity_policy" (fun i => word? i >>= identityPolicy?) c.identityPolicy
    persistenceFailure :=
      ← setting es "persistence_failure" (fun i => word? i >>= failurePolicy?) c.persistenceFailure
    outputDir := ← setting es "output_dir" (fun i => (text? i).map some) c.outputDir }

def Config.parse (text : String) : Except Failure Config :=
  match Toml.parse? text >>= Config.ofEntries? with
  | some c => .ok c
  | none => .error .configuration

def Config.load (t : Tree) (path : String) : Except Failure Config :=
  match t.readText path with
  | .ok text => Config.parse text
  | .error cause => .error (.files cause)

def Config.text (c : Config) : String :=
  "iteration_budget = " ++ toString c.iterationBudget.toNat ++ "\n" ++
  "seed = " ++ toString c.seed.toNat ++ "\n" ++
  "identity_policy = " ++ writeString (identityName c.identityPolicy) ++ "\n" ++
  "persistence_failure = " ++ writeString (failureName c.persistenceFailure) ++ "\n" ++
  match c.outputDir with
  | some path => "output_dir = " ++ writeString path ++ "\n"
  | none => ""

/-- Writes settings to a file, whose directories are made. -/
def Config.save (c : Config) (path : String) (t : Tree) : Except Failure Unit × Tree :=
  match t.createParents path with
  | (.error cause, t) => (.error (.files cause), t)
  | (.ok (), t) =>
    match t.write path c.text.toUTF8 with
    | .error cause => (.error (.files cause), t)
    | .ok t => (.ok (), t)

end ProgramFacts.Session
