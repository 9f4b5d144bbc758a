import ZNet.CircularWindow
import ZNet.BodyRing
import ZNet.CompressionSink
import ZNet.BodyRingProtocol
import ZNet.Decompression
import ZNet.StatefulRefinement
import ZNet.Socks5
import ZNet.Socks5Negotiation
import ZNet.Runs
import ZNet.Engine
import ZNet.EventTokens
import ZNet.Backpressure
import ZNet.ZeroCopy
import ZNet.RingProducers
import ZNet.NetworkBridge
import ZNet.TlsHandshake
import ZNet.ByteOrder
import ZNet.DnsName
import ZNet.DnsResponse
import ZNet.DnsCache
import ZNet.AuthEngine
import ZNet.FifoRuns
import ZNet.QuicStream
import ZNet.WebTransportRegistry
import ZNet.WebTransport
import ZNet.LinkedForest
import ZNet.DependencyTree
import ZNet.StreamManager
import ZNet.StreamAccounting
import ZNet.StreamPlaces
import ZNet.StreamTree
import ZNet.WeightedChoice
import ZNet.StreamScheduler
import ZNet.ServerPush
import ZNet.Isolation
import ZNet.Tables
import ZNet.Pipeline
import ZNet.RateLimit
import ZNet.ConnectionPools
import ZNet.FreedMemory
import ZNet.CacheEntries
import ZNet.Cache
import ZNet.CacheAccounting
import ZNet.HttpCache
import ZNet.HttpCacheTransparency
import ZNet.HttpCacheVary
import ZNet.Origin
import ZNet.StorageBridge
import ZNet.StorageIsolation
import ZNet.StorageQuotas
import ZNet.CookiePartitions
import ZNet.CacheIsolation
import ZNet.WebSocketFrames
import ZNet.Rfc6455
import ZNet.WebSocketConnection
import ZNet.WebSocketMessages
import ZNet.WebSocketPool
import ZNet.WebSocketPoolIndex
import ZNet.TextScan
import ZNet.Decimals
import ZNet.Utf8Text
import ZNet.ProxyConfig
import ZNet.PacEngine
import ZNet.PacEvaluator
import ZNet.PacScript
import ZNet.PacAgreement
import ZNet.HttpConnect
import ZNet.IpAddress
import ZNet.ProxyTunnel
import ZNet.LetterCase
import ZNet.OriginCase
import ZNet.OriginAuthority
import ZNet.PolicyEngine
import ZNet.CspValidator
import ZNet.CspSources
import ZNet.InlineScripts
import ZNet.CorsHandler
import ZNet.Policy
import ZNet.PolicyCase
import ZNet.PolicyManager
import ZNet.Preflight
import ZNet.Hsts
import ZNet.HstsClient
import ZNet.HstsValidation
import ZNet.HstsRoundTrip
import ZNet.SignedTimestamps
import ZNet.CertificateTransparency
import ZNet.MerkleTrees
import ZNet.MerkleConsistency
import ZNet.SocketPool
import ZNet.ScopeRouting
import ZNet.ScopeChoice
import ZNet.StorageManager
import ZNet.StorageBackup
import ZNet.GlobLanguage
import ZNet.PacGlob
import ZNet.ContentEncoding
import ZNet.TlsRead
import ZNet.Http3Drive
import ZNet.BackgroundTasks
import ZNet.WorkerLifecycle
import ZNet.BackgroundSync
import ZNet.StableSort
import ZNet.SyncQueues
import ZNet.SyncWorkers
import ZNet.WorkerCache
import ZNet.WorkerCacheLookup
import ZNet.WorkerCacheBounds
import ZNet.WorkerCacheAccess
import ZNet.DnsNameSafety
import ZNet.NoProxy
import ZNet.WebSocketDecode
import ZNet.HttpConnectRead
import ZNet.ProxyRules
import ZNet.ProxyParseFirst
import ZNet.WebSocketIncoming
import ZNet.PacSafety
import ZNet.PacMeaning
import ZNet.DnsNameComplete
import ZNet.DnsSections
import ZNet.DnsAnswers
import ZNet.DnsCacheMap
import ZNet.ChallengeTokens
import ZNet.ChallengeRealms
import ZNet.FetchCookies
import ZNet.QuicVarint
import ZNet.QuicStreamIds
import ZNet.QuicPacket
import ZNet.QuicRtt
import ZNet.ExclusiveStreams
import ZNet.StreamShares
import ZNet.FlowWindows
import ZNet.Redirects
import ZNet.HttpResponses
import ZNet.CacheRoundTrip
import ZNet.Freshness
import ZNet.StorageReuse
import ZNet.CookieMatching
import ZNet.SetCookie
import ZNet.Heaps
import ZNet.MessagePorts
import ZNet.WorkerRegistry
import ZNet.WorkerShutdown
import ZNet.ScopeConflicts
import ZNet.QuicConnections
import ZNet.Base64
import ZNet.TextLines
import ZNet.HttpGrammar
import ZNet.HttpRequests
import ZNet.StorageHandles
import ZNet.CorsProtocol
import ZNet.CorsExchange
import ZNet.WebSocketHandshake
import ZNet.WebSocketOpening
import ZNet.MessageChannels
import ZNet.SecurityHeaders
import ZNet.SecuredResponses
import ZNet.GeneratedPolicies
