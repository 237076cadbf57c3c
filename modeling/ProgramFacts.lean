import ProgramFacts.Files.Listing
import ProgramFacts.Flow.Dot
import ProgramFacts.Fact.Delta
import ProgramFacts.Extraction.Pass
import ProgramFacts.Random.Generator
import ProgramFacts.Mutation.Step
import ProgramFacts.Session.Run
import ProgramFacts.Session.Settings
import ProgramFacts.Proofs.Faithful
import ProgramFacts.Proofs.Rebuilding
import ProgramFacts.Proofs.MinimalDelta
import ProgramFacts.Proofs.Lockstep
import ProgramFacts.Proofs.Endurance
import ProgramFacts.Proofs.Exhaustion
import ProgramFacts.Proofs.Protection
import ProgramFacts.Proofs.Rearrangement
import ProgramFacts.Proofs.Schemas
import ProgramFacts.Proofs.Registration
import ProgramFacts.Proofs.Calls
import ProgramFacts.Proofs.ControlFrame
import ProgramFacts.Proofs.Noninterference
import ProgramFacts.Proofs.History
import ProgramFacts.Proofs.Reordering
import ProgramFacts.Proofs.Budgets
import ProgramFacts.Proofs.Lenses
import ProgramFacts.Proofs.Conservation
import ProgramFacts.Proofs.Identity
import ProgramFacts.Proofs.Drawing
import ProgramFacts.Proofs.Termination
import ProgramFacts.Proofs.Mirroring
