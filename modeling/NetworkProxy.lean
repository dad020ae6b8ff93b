import NetworkProxy.AcceptLoop
import NetworkProxy.Answers
import NetworkProxy.BasicAuth
import NetworkProxy.BasicLogin
import NetworkProxy.Blocklist
import NetworkProxy.BoundedDeque
import NetworkProxy.BoundedReading
import NetworkProxy.ByteText
import NetworkProxy.CacheAccounting
import NetworkProxy.CacheAdmission
import NetworkProxy.CacheInclusion
import NetworkProxy.CacheSharing
import NetworkProxy.CacheSnapshots
import NetworkProxy.Chaining
import NetworkProxy.ClearedRequests
import NetworkProxy.ClientIsolation
import NetworkProxy.ConnectionOptions
import NetworkProxy.ContentLength
import NetworkProxy.CredentialIsolation
import NetworkProxy.DashboardMarkup
import NetworkProxy.Destinations
import NetworkProxy.EventStream
import NetworkProxy.FieldRelay
import NetworkProxy.Forwarder
import NetworkProxy.ForwardingChain
import NetworkProxy.Handler
import NetworkProxy.HostSpelling
import NetworkProxy.HtmlTokens
import NetworkProxy.IpAddress
import NetworkProxy.JsonText
import NetworkProxy.LineInjection
import NetworkProxy.LogForging
import NetworkProxy.LogSchema
import NetworkProxy.LogStream
import NetworkProxy.LruCache
import NetworkProxy.OrderedDict
import NetworkProxy.OriginForm
import NetworkProxy.Outbound
import NetworkProxy.Parser
import NetworkProxy.PasswordHash
import NetworkProxy.Provisioning
import NetworkProxy.ProxySystem
import NetworkProxy.Pump
import NetworkProxy.PySplit
import NetworkProxy.PyStr
import NetworkProxy.PyText
import NetworkProxy.PyUtf8
import NetworkProxy.RateLimiter
import NetworkProxy.RateLimiterConcurrency
import NetworkProxy.RateLimiterMemory
import NetworkProxy.RateLimiterPruning
import NetworkProxy.RateLimiterReports
import NetworkProxy.RequestAccounting
import NetworkProxy.RequestFraming
import NetworkProxy.RequestReassembly
import NetworkProxy.ResponseOrigin
import NetworkProxy.SocketCleanup
import NetworkProxy.Targets
import NetworkProxy.TextFile
import NetworkProxy.ThreadPool
import NetworkProxy.TokenBucketLaw
import NetworkProxy.TransferSize
import NetworkProxy.Tunnel
import NetworkProxy.TunnelLifetime
import NetworkProxy.TunnelTransparency
import NetworkProxy.UpdateFailure
import NetworkProxy.UrlParse
import NetworkProxy.UserCommands
import NetworkProxy.UserRegistry
import NetworkProxy.UserTool
import NetworkProxy.IniFile
import NetworkProxy.ConfigLoader
import NetworkProxy.LogRotation
import NetworkProxy.DashboardPage
import NetworkProxy.HandlerEnds
import NetworkProxy.Tally
import NetworkProxy.TopHosts
import NetworkProxy.OriginContact
import NetworkProxy.Progress
import NetworkProxy.ServerEnds
import NetworkProxy.TunnelEnds
import NetworkProxy.CachePanel
import NetworkProxy.ProxySeries
