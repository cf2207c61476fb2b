import ClaimStore.Archive
import ClaimStore.Claim.Basic
import ClaimStore.Claim.Id
import ClaimStore.Claim.State
import ClaimStore.Cli.Args
import ClaimStore.Cli.Commands
import ClaimStore.Cli.Usage
import ClaimStore.Config.Issue
import ClaimStore.Config.Quantity
import ClaimStore.Config.Settings
import ClaimStore.Config.Toml
import ClaimStore.Container
import ClaimStore.Disk.Basic
import ClaimStore.Disk.Error
import ClaimStore.Disk.Probe
import ClaimStore.Expiry
import ClaimStore.Fifo
import ClaimStore.Gate
import ClaimStore.Main
import ClaimStore.Number.Decimal
import ClaimStore.Number.Fixed
import ClaimStore.Prelude
import ClaimStore.Number.Shortest
import ClaimStore.Path
import ClaimStore.Reader
import ClaimStore.Repo.Background
import ClaimStore.Repo.Basic
import ClaimStore.Repo.Copy
import ClaimStore.Repo.Open
import ClaimStore.Repo.Read
import ClaimStore.Repo.Reclaim
import ClaimStore.Repo.Write
import ClaimStore.Scheduler
import ClaimStore.Script.Answer
import ClaimStore.Script.Claims
import ClaimStore.Script.Cli
import ClaimStore.Script.Clock
import ClaimStore.Script.Container
import ClaimStore.Script.Files
import ClaimStore.Script.Gate
import ClaimStore.Script.Payload
import ClaimStore.Script.Queue
import ClaimStore.Script.Reading
import ClaimStore.Script.Repo
import ClaimStore.Script.Request
import ClaimStore.Script.Scheduling
import ClaimStore.Script.Session
import ClaimStore.Script.Settings
import ClaimStore.Script.Streams
import ClaimStore.Script.Tracking
import ClaimStore.Script.Transfer
import ClaimStore.Stream
import ClaimStore.Text.Blank
import ClaimStore.Text.Extending
import ClaimStore.Text.Json
import ClaimStore.Text.Printable
import ClaimStore.Text.Quoted
import ClaimStore.Tracker
import ClaimStore.Writer
import ClaimStore.Proofs.Tracker.TotalMap
import ClaimStore.Proofs.Tracker.Records
import ClaimStore.Proofs.Tracker.Exclusive
import ClaimStore.Proofs.Places
import ClaimStore.Proofs.Disk.Operations
import ClaimStore.Proofs.Repo.World
import ClaimStore.Proofs.Repo.Invariant
import ClaimStore.Proofs.Repo.Writing
import ClaimStore.Proofs.Repo.Keeping
import ClaimStore.Proofs.Repo.Reclaiming
import ClaimStore.Proofs.Expiry.Entries
import ClaimStore.Proofs.Repo.Expiring
import ClaimStore.Proofs.Repo.Creating
import ClaimStore.Proofs.Repo.Copying
import ClaimStore.Proofs.Repo.Cloning
import ClaimStore.Proofs.Repo.Runs
import ClaimStore.Proofs.Expiry.Sweeping
import ClaimStore.Proofs.Expiry.Eviction
import ClaimStore.Proofs.Repo.Reading
import ClaimStore.Proofs.Repo.LiveFiles
import ClaimStore.Proofs.Repo.InUse
import ClaimStore.Proofs.Repo.Coordinates
import ClaimStore.Proofs.Repo.Pumping
import ClaimStore.Proofs.Repo.Registering
import ClaimStore.Proofs.Repo.Appending
import ClaimStore.Proofs.Streams.Limits
import ClaimStore.Proofs.Streams.Ending
import ClaimStore.Proofs.Expiry.Queue
import ClaimStore.Proofs.Disk.Listing
import ClaimStore.Proofs.Repo.Cleanup
import ClaimStore.Proofs.Repo.ArchiveFallback
import ClaimStore.Proofs.Tracker.Undoing
import ClaimStore.Proofs.Repo.Aborting
import ClaimStore.Proofs.Repo.Releasing
import ClaimStore.Proofs.Repo.Ranges
import ClaimStore.Proofs.Repo.Missing
import ClaimStore.Proofs.Claim.Ids
import ClaimStore.Proofs.Claim.Rebuilding
import ClaimStore.Proofs.Disk.Footprints
import ClaimStore.Proofs.Repo.Commuting
import ClaimStore.Proofs.Repo.Reordering
import ClaimStore.Proofs.Disk.Clearing
import ClaimStore.Proofs.Repo.Purging
import ClaimStore.Proofs.Repo.AfterPurge
import ClaimStore.Proofs.Queue.BoundedList
import ClaimStore.Proofs.Config.Percentages
import ClaimStore.Proofs.Config.Quantities
import ClaimStore.Proofs.Gate.Readings
import ClaimStore.Proofs.Text.ByteOrder
import ClaimStore.Proofs.Config.Validation
import ClaimStore.Proofs.Claim.Counter
import ClaimStore.Proofs.Repo.Mirroring
import ClaimStore.Proofs.Repo.RollingBack
import ClaimStore.Proofs.Tracker.Queueing
import ClaimStore.Proofs.Disk.NewFiles
import ClaimStore.Proofs.Repo.Awaiting
import ClaimStore.Proofs.Repo.Draining
import ClaimStore.Proofs.Disk.Counting
import ClaimStore.Proofs.Repo.Tallying
import ClaimStore.Proofs.Repo.Sessions
