import ThreatGossip.Proofs.Tallies
import ThreatGossip.Proofs.StateBased
import ThreatGossip.Proofs.AddWins
import ThreatGossip.Proofs.Replays
import ThreatGossip.Proofs.Convergence
import ThreatGossip.Proofs.WireForms
import ThreatGossip.Proofs.LocalWrites
import ThreatGossip.Proofs.Publication
import ThreatGossip.Proofs.Partitions
import ThreatGossip.Proofs.Quiescence
import ThreatGossip.Proofs.Exchanges
import ThreatGossip.Proofs.Traffic
import ThreatGossip.Proofs.Completeness
import ThreatGossip.Proofs.Json.Replicas
import ThreatGossip.Proofs.Inbound
import ThreatGossip.Proofs.Replication
import ThreatGossip.Proofs.Winners
import ThreatGossip.Proofs.Absorption
import ThreatGossip.Proofs.Histories
import ThreatGossip.Proofs.Clocks
import ThreatGossip.SortedMap.Lemmas
import ThreatGossip.Gossip
import ThreatGossip.Http.Client
import ThreatGossip.Http.Router
import ThreatGossip.Main
import ThreatGossip.Proofs.Deltas
import ThreatGossip.Proofs.Json.Nesting
import ThreatGossip.Proofs.Json.RoundTrips
import ThreatGossip.Proofs.Doubles
import ThreatGossip.Proofs.Operations
import ThreatGossip.Proofs.Quarantine
import ThreatGossip.Proofs.Transports
import ThreatGossip.Proofs.Outcomes
import ThreatGossip.Proofs.Versions
import ThreatGossip.Proofs.Growth
import ThreatGossip.Proofs.Views
import ThreatGossip.Proofs.Isolation
import ThreatGossip.Proofs.Restarts
import ThreatGossip.Proofs.Refusals
import ThreatGossip.Proofs.Removals
import ThreatGossip.Proofs.Pulls
import ThreatGossip.Proofs.RoundAccounts
import ThreatGossip.Proofs.Overwrites
import ThreatGossip.Proofs.Acknowledgments
import ThreatGossip.Proofs.SingleRegisters
import ThreatGossip.Proofs.Digests
import ThreatGossip.Proofs.Comparisons
import ThreatGossip.Proofs.Normalization
import ThreatGossip.Proofs.Rearrangements
import ThreatGossip.Proofs.Causality
import ThreatGossip.Proofs.Pruning
import ThreatGossip.Proofs.Footprints
import ThreatGossip.Proofs.Bootstraps
import ThreatGossip.Proofs.Tags
