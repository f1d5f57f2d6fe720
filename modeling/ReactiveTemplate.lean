import ReactiveTemplate.Engine.Basic
import ReactiveTemplate.Main
import ReactiveTemplate.Proofs.Document.Ages
import ReactiveTemplate.Proofs.Document.Bystanders
import ReactiveTemplate.Proofs.Document.Contents
import ReactiveTemplate.Proofs.Document.Counts
import ReactiveTemplate.Proofs.Document.Duplicates
import ReactiveTemplate.Proofs.Document.Failures
import ReactiveTemplate.Proofs.Document.Guards
import ReactiveTemplate.Proofs.Document.Lifetimes
import ReactiveTemplate.Proofs.Document.Lists
import ReactiveTemplate.Proofs.Document.Numbering
import ReactiveTemplate.Proofs.Document.Placing
import ReactiveTemplate.Proofs.Document.Walks
import ReactiveTemplate.Proofs.Engine.Declarations
import ReactiveTemplate.Proofs.Engine.Dependence
import ReactiveTemplate.Proofs.Engine.Enrolment
import ReactiveTemplate.Proofs.Engine.Generations
import ReactiveTemplate.Proofs.Engine.Holdings
import ReactiveTemplate.Proofs.Engine.Homes
import ReactiveTemplate.Proofs.Engine.Housekeeping
import ReactiveTemplate.Proofs.Engine.Ledger
import ReactiveTemplate.Proofs.Engine.Leftovers
import ReactiveTemplate.Proofs.Engine.Recovery
import ReactiveTemplate.Proofs.Engine.Refills
import ReactiveTemplate.Proofs.Engine.Restoring
import ReactiveTemplate.Proofs.Engine.Shelter
import ReactiveTemplate.Proofs.Engine.Storage
import ReactiveTemplate.Proofs.Engine.Twins
import ReactiveTemplate.Proofs.Engine.Unmounting
import ReactiveTemplate.Proofs.Engine.Upkeep
import ReactiveTemplate.Proofs.Engine.Visits
import ReactiveTemplate.Proofs.Engine.Wakeups
import ReactiveTemplate.Proofs.Engine.Wiring
import ReactiveTemplate.Proofs.Engine.ZoneNames
import ReactiveTemplate.Proofs.Engine.Zones
import ReactiveTemplate.Proofs.Evaluation.Agreement
import ReactiveTemplate.Proofs.Evaluation.Caching
import ReactiveTemplate.Proofs.Evaluation.Leniency
import ReactiveTemplate.Proofs.Evaluation.Locks
import ReactiveTemplate.Proofs.Evaluation.Progress
import ReactiveTemplate.Proofs.Evaluation.Sums
import ReactiveTemplate.Proofs.Grammar.Acceptance
import ReactiveTemplate.Proofs.Grammar.Chains
import ReactiveTemplate.Proofs.Grammar.Clauses
import ReactiveTemplate.Proofs.Grammar.Errors
import ReactiveTemplate.Proofs.Grammar.LongestMatch
import ReactiveTemplate.Proofs.Grammar.Names
import ReactiveTemplate.Proofs.Scheduling.Windows
import ReactiveTemplate.Proofs.State.Assignment
import ReactiveTemplate.Proofs.State.Contents
import ReactiveTemplate.Proofs.State.Identity
import ReactiveTemplate.Proofs.State.Notification
import ReactiveTemplate.Proofs.State.Overlaps
import ReactiveTemplate.Proofs.State.Sessions
import ReactiveTemplate.Proofs.State.Targets
import ReactiveTemplate.Proofs.Value.Comparisons
import ReactiveTemplate.Proofs.Value.Documents
import ReactiveTemplate.Proofs.Value.Texts
