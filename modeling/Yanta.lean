import Yanta.Document.Identity
import Yanta.Document.Images
import Yanta.Document.OptimisticLocking
import Yanta.System.ArchiveState
import Yanta.Editor.NoLostEdit
import Yanta.Editor.BlockSanitize
import Yanta.Editor.Recorded
import Yanta.Editor.SingleSave
import Yanta.Editor.FindState
import Yanta.Editor.Flush
import Yanta.Asset.Finalize
import Yanta.Asset.Sessions
import Yanta.Plugin.Containment
import Yanta.Plugin.Trust
import Yanta.Backup.Restore
import Yanta.Migration.Merge
import Yanta.Journal.Mirror
import Yanta.Journal.View
import Yanta.Preferences.Store
import Yanta.Git.CommittedWork
import Yanta.Git.PendingChanges
import Yanta.Git.Stash
import Yanta.Blocknote.Storable
import Yanta.CommandLine.Confirmation
import Yanta.Search.Branches
import Yanta.Document.Export
import Yanta.Watcher.OwnWrites
import Yanta.Watcher.UpToDate
import Yanta.Search.TagFilter
import Yanta.Search.Stability
import Yanta.SearchIndex.QueryTokens
import Yanta.SearchIndex.Rebuilds
import Yanta.SearchIndex.Highlights
import Yanta.Document.LinkIndex
import Yanta.Blocknote.TableRoundTrip
import Yanta.Blocknote.Nesting
import Yanta.Git.OperationLock
import Yanta.Git.Notifications
import Yanta.Watcher.Timers
