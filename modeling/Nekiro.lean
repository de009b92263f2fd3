import Nekiro.Civil
import Nekiro.Rfc3339
import Nekiro.Regex
import Nekiro.Hex
import Nekiro.Json
import Nekiro.JsonValue
import Nekiro.JsonText
import Nekiro.JsonDecode
import Nekiro.Base64
import Nekiro.Keyset
import Nekiro.Sha256
import Nekiro.ErrorTree
import Nekiro.ParentOrder
import Nekiro.RuntimeContracts
import Nekiro.RuntimeSequence
import Nekiro.ResultStream
import Nekiro.RuntimeRecords
import Nekiro.Logged
import Nekiro.DispatchEvents
import Nekiro.DispatchHandler
import Nekiro.EventValidity
import Nekiro.DispatchRuns
import Nekiro.DispatchProtocol
import Nekiro.DispatchSafety
import Nekiro.DispatchFrames
import Nekiro.DispatchComplete
import Nekiro.DispatchErrors
import Nekiro.LedgerTables
import Nekiro.LedgerStore
import Nekiro.LedgerHistory
import Nekiro.LedgerInvariant
import Nekiro.LedgerSound
import Nekiro.LedgerConstraints
import Nekiro.LedgerTrace
import Nekiro.LedgerReads
import Nekiro.NestedInvocations
import Nekiro.Table
import Nekiro.WorkspaceStore
import Nekiro.WorkspaceLifecycle
import Nekiro.InstallationListing
import Nekiro.JsonInterface
import Nekiro.AgentCard
import Nekiro.AgentCardContract
import Nekiro.CatalogTables
import Nekiro.CatalogStore
import Nekiro.CatalogChanges
import Nekiro.CatalogLifecycle
import Nekiro.Strings
import Nekiro.Url
import Nekiro.Endpoint
import Nekiro.Target
import Nekiro.JsonNumber
import Nekiro.CardLimits
import Nekiro.TargetLimits
import Nekiro.DuplicateMembers
import Nekiro.RuntimeLanguage
import Nekiro.Slices
import Nekiro.TraceOrder
import Nekiro.LedgerCodec
import Nekiro.A2AStream
import Nekiro.A2AStreamRuns
import Nekiro.Interleaving
import Nekiro.EndpointPolicy
import Nekiro.CatalogServices
import Nekiro.CatalogTrust
import Nekiro.CatalogReachable
import Nekiro.CatalogRuns
import Nekiro.Installability
import Nekiro.PublicShare
import Nekiro.PublicShareRuns
import Nekiro.JsonStruct
import Nekiro.JsonSchema
import Nekiro.AgentCardDocument
import Nekiro.AgentCardSchema
import Nekiro.Sorting
import Nekiro.TextMap
import Nekiro.RegistryModel
import Nekiro.Netip
import Nekiro.TopologyDelta
import Nekiro.NacosDirectory
import Nekiro.Transitions
import Nekiro.InstanceWatch
import Nekiro.WatchDelivery
import Nekiro.KubernetesWire
import Nekiro.KubernetesTopology
import Nekiro.KubernetesObservation
import Nekiro.KubernetesRuns
import Nekiro.NacosRegistrar
import Nekiro.NacosSessions
import Nekiro.NacosLifecycle
import Nekiro.ConfigKey
import Nekiro.ConfigReads
import Nekiro.ConfigDirectory
import Nekiro.NacosEcho
