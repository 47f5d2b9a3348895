import RoomCast.BackgroundTasks
import RoomCast.Binary64
import RoomCast.Capacity
import RoomCast.CertificatePair
import RoomCast.ClientRequest
import RoomCast.CommandLine
import RoomCast.Connection
import RoomCast.Envelope
import RoomCast.FileTree
import RoomCast.Form
import RoomCast.Handler
import RoomCast.Heartbeat
import RoomCast.Identity
import RoomCast.JsonError
import RoomCast.JsonLexeme
import RoomCast.JsonMerge
import RoomCast.JsonRecord
import RoomCast.JsonSkip
import RoomCast.JsonText
import RoomCast.JsonValue
import RoomCast.Launch
import RoomCast.Listeners
import RoomCast.LogFilter
import RoomCast.LossyText
import RoomCast.Main
import RoomCast.MergeLayer
import RoomCast.MergeWorker
import RoomCast.Metrics
import RoomCast.Numeral
import RoomCast.Overrides
import RoomCast.Proofs.MergeBatches
import RoomCast.Proofs.MergeConservation
import RoomCast.Proofs.TableLookup
import RoomCast.Publish
import RoomCast.QuotedText
import RoomCast.Registry
import RoomCast.Server
import RoomCast.Service
import RoomCast.Session
import RoomCast.Settings
import RoomCast.SettingsFile
import RoomCast.Shard
import RoomCast.ShortestDecimal
import RoomCast.StartError
import RoomCast.Table
import RoomCast.Unprintable
import RoomCast.Proofs.MergeRun
import RoomCast.Proofs.ShardTables
import RoomCast.Proofs.RosterOffer
import RoomCast.Proofs.RegistryTables
import RoomCast.Proofs.RegistryPipeline
import RoomCast.Proofs.RegistryDelivery
import RoomCast.Proofs.RegistryUnion
import RoomCast.Proofs.FlatRegistry
import RoomCast.Proofs.HandlerMembership
import RoomCast.Proofs.MembershipAgreement
import RoomCast.Proofs.FragmentText
import RoomCast.Proofs.MergeTimers
import RoomCast.Proofs.ServerSessions
import RoomCast.Proofs.ServerRun
import RoomCast.Proofs.PublishDelivery
import RoomCast.Proofs.ServerSettling
import RoomCast.Proofs.ShardAdmission
import RoomCast.Proofs.DispatchAccount
import RoomCast.Proofs.MergeDeadlines
import RoomCast.Proofs.SessionTasks
import RoomCast.Proofs.SessionStream
import RoomCast.Proofs.SessionPart
import RoomCast.Proofs.SessionLifecycle
import RoomCast.Proofs.SessionApart
import RoomCast.Proofs.StaleTimers
import RoomCast.Proofs.OutboundDrops
import RoomCast.Proofs.JsonGrammar
import RoomCast.Proofs.RecordShape
import RoomCast.Proofs.FrameShape
import RoomCast.Proofs.SessionSettling
import RoomCast.Proofs.SessionHoldings
import RoomCast.Proofs.Shutdown
import RoomCast.Proofs.GrammarScan
import RoomCast.Proofs.ListReading
import RoomCast.Proofs.PushFrames
import RoomCast.Proofs.OrderedMembers
import RoomCast.Proofs.RecordLayout
import RoomCast.Proofs.SettingsMerge
import RoomCast.Proofs.SettingsLayers
import RoomCast.Proofs.ConnectionCounts
import RoomCast.Proofs.BatchSizes
import RoomCast.Proofs.RoomTables
import RoomCast.Proofs.ShardBroadcast
import RoomCast.Proofs.WorkerApart
import RoomCast.Proofs.MergeShares
import RoomCast.Proofs.LayerApart
import RoomCast.Proofs.OutboundQueue
import RoomCast.Proofs.InertRequests
import RoomCast.Proofs.Teardown
import RoomCast.Proofs.HeartbeatTiming
import RoomCast.Proofs.PublishAdmission
import RoomCast.Proofs.TaskEnding
import RoomCast.Proofs.GracefulStop
import RoomCast.Proofs.TrackedTasks
import RoomCast.Proofs.WriterTiming
import RoomCast.Proofs.ReaderFrames
import RoomCast.Proofs.LiteralReading
import RoomCast.Proofs.FrameEncoding
import RoomCast.Proofs.FrameValues
import RoomCast.Proofs.RoomNames
import RoomCast.Proofs.SavedSettings
import RoomCast.Proofs.EnvironmentOverrides
import RoomCast.Proofs.RunnableSettings
import RoomCast.Proofs.SkippedNulls
import RoomCast.Proofs.OverlayLaws
import RoomCast.Proofs.RoomHash
import RoomCast.Proofs.FailedStart
import RoomCast.Proofs.CodecReading
import RoomCast.Proofs.RecordReading
import RoomCast.Proofs.SettingsReading
import RoomCast.Proofs.ConsecutiveIdentities
import RoomCast.Proofs.IdentityOwners
