import Hath.Basic
import Hath.CacheManager.Accounting
import Hath.CacheManager.AccountingExact
import Hath.CacheManager.Cleaner
import Hath.CacheManager.CleanerEnds
import Hath.CacheManager.CleanerGoal
import Hath.CacheManager.CleanerOrder
import Hath.CacheManager.Contained
import Hath.CacheManager.FileId
import Hath.CacheManager.FileInfo
import Hath.CacheManager.GetFile
import Hath.CacheManager.HashLoop
import Hath.CacheManager.Import
import Hath.CacheManager.Integrity
import Hath.CacheManager.Recency
import Hath.CacheManager.Scan
import Hath.CacheManager.ScanExact
import Hath.CacheManager.ScanTally
import Hath.CacheManager.State
import Hath.CacheManager.Verify
import Hath.FileReader
import Hath.FileReader.Runs
import Hath.Gallery.CheckHash
import Hath.Gallery.DirName
import Hath.Gallery.Distinct
import Hath.Gallery.Download
import Hath.Gallery.Effort
import Hath.Gallery.Parser
import Hath.Gallery.Resume
import Hath.Gallery.RoundTrip
import Hath.Gallery.ShortLine
import Hath.Gallery.Task
import Hath.Lib.Assoc
import Hath.Lib.Channel
import Hath.Lib.Endless
import Hath.Lib.Fallible
import Hath.Lib.LeakyBucket
import Hath.Lib.Loop
import Hath.Lib.Machine
import Hath.Lib.Notify
import Hath.Lib.PollStream
import Hath.Lib.Recount
import Hath.Lib.Relisting
import Hath.Lib.Rotating
import Hath.Lib.Separated
import Hath.Lib.Splice
import Hath.Lib.Watch
import Hath.Logger
import Hath.Logger.Delivery
import Hath.Main.Commands
import Hath.Main.Credential
import Hath.Main.Keepalive
import Hath.Middleware.AccessLog
import Hath.Middleware.ConnectionCounter
import Hath.Net
import Hath.Path
import Hath.Route.Bounded
import Hath.Route.CacheHit
import Hath.Route.Flight
import Hath.Route.FlightSafety
import Hath.Route.Following
import Hath.Route.Keystamp
import Hath.Route.Proxied
import Hath.Route.ProxyThreads
import Hath.Route.Signature
import Hath.Route.SpeedTest
import Hath.Route.Worker
import Hath.Rpc.Authorised
import Hath.Rpc.Client
import Hath.Rpc.Clock
import Hath.Rpc.Failover
import Hath.Rpc.Response
import Hath.Server.Connections
import Hath.Server.DateHeader
import Hath.Server.FloodControl
import Hath.Server.FloodLimit
import Hath.Server.FloodRate
import Hath.Server.H3
import Hath.Server.H3Quinn
import Hath.Server.Shutdown
import Hath.Server.TruncateBody
import Hath.Server.TruncateSound
import Hath.Text
