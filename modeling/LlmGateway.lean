import LlmGateway.Lib.Transition
import LlmGateway.Gossip.UdpTransport
import LlmGateway.Gossip.Convergence
import LlmGateway.Gossip.Provenance
import LlmGateway.Gossip.Effects
import LlmGateway.Gossip.Refutation
import LlmGateway.Gossip.Cluster
import LlmGateway.Gossip.SuspectTimer
import LlmGateway.Gossip.IndirectProbe
import LlmGateway.Gateway.RequestQueue
import LlmGateway.Gateway.CircuitBreaker
import LlmGateway.Common.Rpc
import LlmGateway.Replica.ReplicaServer
import LlmGateway.Gateway.LoadBalancer
import LlmGateway.Gateway.GatewayServer
import LlmGateway.Gateway.Failover
import LlmGateway.Gateway.Capacity
import LlmGateway.Gateway.Selection
import LlmGateway.Gateway.Remapping
import LlmGateway.Gateway.ActiveRequests
import LlmGateway.Gateway.PartialDelivery
import LlmGateway.Gateway.BreakerDiscipline
import LlmGateway.Gateway.GatewayNode
import LlmGateway.Gateway.RollingUpdater
import LlmGateway.Gossip.UsableAddress
import LlmGateway.Gateway.UnusableAddress
import LlmGateway.Gossip.Piggyback
import LlmGateway.Gossip.Held
import LlmGateway.Gossip.Supply
import LlmGateway.Gossip.Suspicions
import LlmGateway.Gossip.Rejoin
import LlmGateway.Gossip.Handling
import LlmGateway.Gossip.Recovery
import LlmGateway.Gateway.Hedging
import LlmGateway.Gateway.Notification
import LlmGateway.Gateway.HungLoser
import LlmGateway.Gateway.Probe
import LlmGateway.Gateway.RegistryMetadata
import LlmGateway.Gateway.Rebuilding
import LlmGateway.Gateway.RetryBudget
import LlmGateway.Gateway.InferMove
import LlmGateway.Gateway.StrandedWaiter
import LlmGateway.Gateway.ArrivalOrder
import LlmGateway.Gossip.Departure
import LlmGateway.Gossip.SequenceNumbers
import LlmGateway.Gossip.ProbeAnswers
import LlmGateway.Gossip.ProbeEvents
import LlmGateway.Gossip.AddressSyntax
import LlmGateway.Gateway.DerivedAddress
import LlmGateway.Gossip.MemberOrder
import LlmGateway.Lib.SendQueue
import LlmGateway.Gossip.Announcements
import LlmGateway.Gateway.BreakerCalls
import LlmGateway.Lib.Reservoir
import LlmGateway.Gateway.LeastConnections
import LlmGateway.Gossip.SeedAlias
import LlmGateway.Gateway.SingleSource
import LlmGateway.Gateway.DrainTimeout
import LlmGateway.Replica.PortConvention
import LlmGateway.Lib.Completion
import LlmGateway.Gateway.Completion
import LlmGateway.Gateway.Dispatches
import LlmGateway.Lib.Runs
import LlmGateway.Client.InferenceClient
import LlmGateway.Gossip.Flapping
import LlmGateway.Gossip.RoundAnswers
import LlmGateway.Gossip.CrashDetection
import LlmGateway.Lib.Successive
import LlmGateway.Gateway.Affinity
import LlmGateway.Gateway.Admission
import LlmGateway.Gateway.Circuits
import LlmGateway.Gateway.Withdrawal
import LlmGateway.Gateway.RolloutCourse
import LlmGateway.Gossip.LoadReports
import LlmGateway.Gossip.MessageLoad
import LlmGateway.Gateway.FinalToken
import LlmGateway.Replica.Draining
import LlmGateway.Gateway.Deployment
import LlmGateway.Gossip.Datagrams
