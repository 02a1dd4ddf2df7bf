import Strata.Fields.Sorted
import Strata.Main
import Strata.Schedule
import Strata.Json.Parser
import Strata.Proofs.Priorities
import Strata.Proofs.StableSort
import Strata.Proofs.Store
import Strata.Proofs.Normalization
import Strata.Proofs.Cascade
import Strata.Proofs.Combine
import Strata.Proofs.Pointwise
import Strata.Proofs.Malformed
import Strata.Proofs.Wrappers
import Strata.Proofs.Agreement
import Strata.Proofs.Ancestry
import Strata.Proofs.Inheritance
import Strata.Proofs.Integrity
import Strata.Proofs.Forest
import Strata.Proofs.Invisible
import Strata.Proofs.Concurrency
import Strata.Proofs.Account
import Strata.Proofs.References
import Strata.Proofs.Canonical
import Strata.Proofs.Provision
import Strata.Proofs.Unpriced
import Strata.Proofs.Multiplicity
import Strata.Proofs.Overlays
import Strata.Proofs.Depths
import Strata.Proofs.Legible
import Strata.Proofs.Records
import Strata.Proofs.EmptyIds
import Strata.Proofs.Climbing
import Strata.Proofs.Namespaces
import Strata.Proofs.Loading
import Strata.Proofs.Ties
import Strata.Proofs.Canonicalizing
import Strata.Proofs.Nulls
import Strata.Proofs.Widening
import Strata.Proofs.TotalOrder
