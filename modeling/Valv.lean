import Valv.Client.Cache
import Valv.Client.Content
import Valv.Client.FpChanges
import Valv.Client.FpMove
import Valv.Client.Heads
import Valv.Client.Mounts
import Valv.Client.Redelivery
import Valv.Client.Stale
import Valv.Client.Spared
import Valv.Client.Sweep
import Valv.Client.Unmaterialized
import Valv.Client.Upload
import Valv.Daemon.ApplyPhases
import Valv.Daemon.ConflictCopies
import Valv.Daemon.Echo
import Valv.Daemon.FpWatch
import Valv.Daemon.MountRequests
import Valv.Daemon.PathResolution
import Valv.Daemon.Pause
import Valv.Daemon.PushCache
import Valv.Daemon.Realtime
import Valv.Daemon.Startup
import Valv.Daemon.Walks
import Valv.Lib.Replica
import Valv.Lib.Schedule
import Valv.Server.Backfill
import Valv.Server.Collect
import Valv.Server.Download
import Valv.Server.Feed
import Valv.Server.Hub
import Valv.Server.Invites
import Valv.Server.Issue
import Valv.Server.Keys
import Valv.Server.Nearest
import Valv.Server.Parity
import Valv.Server.Purge
import Valv.Server.Reads
import Valv.Server.Refs
import Valv.Server.Sqlite
import Valv.Server.Visible
import Valv.Update.LaunchAgent
import Valv.Update.Release
import Valv.Update.SelfUpdate
import Valv.Update.Swap
