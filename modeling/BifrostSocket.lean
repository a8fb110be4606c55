import BifrostSocket.TransitionRuns
import BifrostSocket.LeaseRecords
import BifrostSocket.LeaderElectors
import BifrostSocket.InterleavedElectors
import BifrostSocket.LeaseCoverage
import BifrostSocket.TimedLeaseDrivers
import BifrostSocket.LeadershipServices
import BifrostSocket.ConsumerGroups
import BifrostSocket.OperatorProtocol
import BifrostSocket.OperatorLoops
import BifrostSocket.AnsweredRequests
import BifrostSocket.OrderedConsumption
import BifrostSocket.RestartedConsumers
import BifrostSocket.ConnectScans
import BifrostSocket.IbClients
import BifrostSocket.ClientSessions
import BifrostSocket.ClientIdDrift
import BifrostSocket.IngestorWatchlists
import BifrostSocket.IngestorSessions
import BifrostSocket.SubscriptionCaps
import BifrostSocket.MarketDataLines
import BifrostSocket.ContractKeys
import BifrostSocket.SettledRequests
import BifrostSocket.BoundedWaits
import BifrostSocket.LeaseHistories
import BifrostSocket.PoisonEntries
import BifrostSocket.LeadershipTerms
import BifrostSocket.ReportedConnections
import BifrostSocket.LiveSubscriptions
import BifrostSocket.AccountFills
import BifrostSocket.CommissionMerges
import BifrostSocket.BackfillCoverage
import BifrostSocket.AccountSnapshots
import BifrostSocket.OpenOrderMerges
import BifrostSocket.RowAgreement
import BifrostSocket.AccountMerges
import BifrostSocket.ExecutionFetches
import BifrostSocket.BackfillOverlaps
import BifrostSocket.ConnectAttempts
import BifrostSocket.CommissionRegistrations
import BifrostSocket.OptionQuotes
import BifrostSocket.ArgumentParsers
import BifrostSocket.ConfigPaths
import BifrostSocket.SessionRestarts
import BifrostSocket.HeartbeatReconnects
import BifrostSocket.TracedCalls
import BifrostSocket.OperatorFetches
import BifrostSocket.FetchEnvelopes
import BifrostSocket.KubernetesLeases
import BifrostSocket.MidPrices
import BifrostSocket.ElectorRuns
import BifrostSocket.ConfigOverlays
import BifrostSocket.KubernetesRefinement
import BifrostSocket.KubernetesDrivers
import BifrostSocket.HeartbeatSchedules
import BifrostSocket.SnapshotVersions
import BifrostSocket.OptionSnapshots
import BifrostSocket.SecondaryFills
import BifrostSocket.FailoverBounds
import BifrostSocket.OperatorLeadership
import BifrostSocket.KubernetesOperators
import BifrostSocket.IngestorProcess
import BifrostSocket.DataWaits
import BifrostSocket.TimezonePatches
import BifrostSocket.MockGateways
import BifrostSocket.OperatorShutdowns
import BifrostSocket.AgentProcess
import BifrostSocket.ConcurrentOperators
