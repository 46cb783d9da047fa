import Favonius.Transfer.Tampering
import Favonius.Transfer.ControlNonces
import Favonius.Transfer.KeyAgreement
import Favonius.Daemon.TicketReplay
import Favonius.Transfer.HeaderMasks
import Favonius.Api.LocalTransfer
import Favonius.Transfer.Resumption
import Favonius.Crypto.GrantWire
import Favonius.Client.SyncConvergence
import Favonius.Api.Engine
import Favonius.Transfer.HeaderAgreement
import Favonius.Sync.SparseSkips
import Favonius.Transfer.FallbackVerdict
import Favonius.Client.SyncRun
import Favonius.Proto.HelloFormat
import Favonius.Transfer.AckExactness
import Favonius.Transfer.DataPorts
import Favonius.Client.Holes
import Favonius.Client.InFlight
import Favonius.Client.GlobSemantics
import Favonius.Client.PrefixCache
import Favonius.Transfer.StreamPartition
import Favonius.Daemon.Completion
import Favonius.Daemon.RequeuedHello
import Favonius.Transfer.GapReports
import Favonius.Sync.MerkleDiff
import Favonius.Client.ResumeAck
import Favonius.Daemon.MerkleCache
import Favonius.Transfer.SetupHashing
import Favonius.Client.SparseManifest
import Favonius.Api.FsConfinement
import Favonius.Congestion.BandwidthFilter
import Favonius.Congestion.LossTracker
import Favonius.Client.CongestionFeed
import Favonius.Client.SegmentedSends
import Favonius.Daemon.PortRuns
import Favonius.Api.ManifestHash
import Favonius.Api.ManifestLayout
import Favonius.Proto.Tlv
import Favonius.Crypto.HexCodec
import Favonius.Lib.RecentPerKey
import Favonius.Policy.History
import Favonius.Lib.OnesComplement
import Favonius.Xdp.Frame
import Favonius.Client.StagingPass
import Favonius.Daemon.DataPhase
