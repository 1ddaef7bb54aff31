import LogosDelivery.Archive.QueueDriver
import LogosDelivery.Archive.PostgresStatements
import LogosDelivery.Archive.PostgresChunks
import LogosDelivery.Archive.PostgresRequestIds
import LogosDelivery.Archive.PgPoolRuns
import LogosDelivery.Archive.Ingress
import LogosDelivery.Archive.PartitionRuns
import LogosDelivery.Archive.SqliteAnswers
import LogosDelivery.Channels.Finalisation
import LogosDelivery.Channels.SdsIngress
import LogosDelivery.Channels.SegmentAccounts
import LogosDelivery.Discovery.ShardUpdates
import LogosDelivery.Discovery.ServiceConvergence
import LogosDelivery.Filter.Bookkeeping
import LogosDelivery.Keystore.Losses
import LogosDelivery.Messaging.BackfillRuns
import LogosDelivery.Messaging.Anonymity
import LogosDelivery.Node.SubscriptionBookkeeping
import LogosDelivery.Node.EdgeFilterRuns
import LogosDelivery.Node.ConnectionEvents
import LogosDelivery.Persistency.SdsPersistency
import LogosDelivery.Rln.MessageIds
import LogosDelivery.Rln.Validation
import LogosDelivery.Rln.ConcurrentValidation
import LogosDelivery.Rln.MerkleProofRuns
import LogosDelivery.Rln.ModuleTransportRuns
import LogosDelivery.StoreSync.TopicAttribution
import LogosDelivery.StoreSync.Session
import LogosDelivery.StoreSync.CodecRoundTrip
import LogosDelivery.StoreSync.Deferred
import LogosDelivery.StoreSync.Confirmed
import LogosDelivery.StoreSync.Placeholders
import LogosDelivery.StoreSync.RangeCover
import LogosDelivery.StoreSync.WireBounds
import LogosDelivery.StoreSync.BatchInsert
import LogosDelivery.StoreSync.PreProcess
import LogosDelivery.StoreSync.CodecStrict
import LogosDelivery.StoreSync.ItemSetDifference
import LogosDelivery.StoreSync.EvenPartition
import LogosDelivery.Persistency.Faults
import LogosDelivery.Archive.DatabaseSize
import LogosDelivery.Messaging.RateLimitRuns
import LogosDelivery.Messaging.BackfillPaging
import LogosDelivery.Rln.AcceptableRoots
import LogosDelivery.Archive.QueuePuts
import LogosDelivery.Filter.CriteriaLimit
import LogosDelivery.Discovery.ShardRoundTrip
import LogosDelivery.Discovery.EnrMultiaddrs
import LogosDelivery.Discovery.AddressUpdates
import LogosDelivery.Topics.PubsubTopic
import LogosDelivery.Topics.ContentTopic
import LogosDelivery.Node.PrunedPeers
import LogosDelivery.Common.TimedMapRuns
import LogosDelivery.StoreSync.Convergence
import LogosDelivery.Rest.MessageCacheRuns
import LogosDelivery.Rln.HonestPublisher
import LogosDelivery.StoreSync.InitialFill
import LogosDelivery.Store.StoreProtocol
import LogosDelivery.Store.StoreQueries
import LogosDelivery.Rest.EventCache
