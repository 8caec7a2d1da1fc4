import AltCache.AltStateFetcher.Outcome
import AltCache.AltStateFetcher.Pagination
import AltCache.AltStateFetcher.Termination
import AltCache.Api.Chunks
import AltCache.Api.Paging
import AltCache.Client.Agreement
import AltCache.Client.Download
import AltCache.Client.Failure
import AltCache.Client.Handoff
import AltCache.Client.LiveStaging
import AltCache.Client.Newest
import AltCache.Client.Progress
import AltCache.Process.Progress
import AltCache.Process.Streams
import AltCache.StateUpdater.Convergence
import AltCache.StateUpdater.Newest
import AltCache.StateUpdater.OwnSlot
import AltCache.Store.Paging
import AltCache.Store.Retention
import AltCache.Updater.Advance
import AltCache.Updater.Entries
import AltCache.Updater.Handoff
import AltCache.Updater.Publication
import AltCache.Updater.Readiness
import AltCache.Updater.Refresh
import AltCache.Updater.Rollback
import AltCache.Updater.Rotation
import AltCache.Updater.Snapshot
import AltCache.Updater.TwoRuns
import AltCache.Alerts
import AltCache.Process.Alerts
import AltCache.Config
import AltCache.Startup
