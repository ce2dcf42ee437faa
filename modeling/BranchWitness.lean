import BranchWitness.Main
import BranchWitness.Proofs.Lists
import BranchWitness.Proofs.Exactness
import BranchWitness.Proofs.Independence
import BranchWitness.Proofs.Statements
import BranchWitness.Proofs.Identity
import BranchWitness.Proofs.Executions
import BranchWitness.Proofs.Filing
import BranchWitness.Proofs.Restoration
import BranchWitness.Proofs.Failures
import BranchWitness.Proofs.Accounting
import BranchWitness.Proofs.Tracing
import BranchWitness.Proofs.Nesting
import BranchWitness.Proofs.Capacity
import BranchWitness.Proofs.Solver.Completeness
import BranchWitness.Proofs.Formulas
import BranchWitness.Proofs.Solver.Budget
import BranchWitness.Proofs.Solver.Arrangement
import BranchWitness.Proofs.Solver.Descent
import BranchWitness.Proofs.Solver.Minimal
import BranchWitness.Proofs.Solver.Representatives
import BranchWitness.Proofs.Json.Leaves
import BranchWitness.Proofs.Json.Reading
import BranchWitness.Proofs.Json.Programs
import BranchWitness.Proofs.Reassignment
import BranchWitness.Proofs.Splicing
import BranchWitness.Proofs.StoreHistory
import BranchWitness.Proofs.Events
import BranchWitness.Proofs.Unrolling
import BranchWitness.Proofs.Substitution
import BranchWitness.Proofs.Yaml.Keys
import BranchWitness.Proofs.Yaml.Words
import BranchWitness.Proofs.Yaml.Steps
import BranchWitness.Proofs.Yaml.Layout
import BranchWitness.Proofs.Yaml.Blocks
import BranchWitness.Proofs.Yaml.Scalars
import BranchWitness.Proofs.Settings.Fields
import BranchWitness.Proofs.Settings.Records
import BranchWitness.Proofs.Settings.Patches
import BranchWitness.Proofs.Settings.Files
