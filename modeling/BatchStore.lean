import BatchStore.Host
import BatchStore.Settings.Text
import BatchStore.Workload
import BatchStore.Proofs.Refinement
import BatchStore.Proofs.Reopening
import BatchStore.Proofs.Durability
import BatchStore.Proofs.Crash
import BatchStore.Proofs.VersionOrder
import BatchStore.Proofs.Construction
import BatchStore.Proofs.Checksum
import BatchStore.Proofs.Delivery
import BatchStore.Proofs.ReadBack
import BatchStore.Proofs.Damage
import BatchStore.Proofs.Splitting
import BatchStore.Proofs.Modes
import BatchStore.Proofs.RecoveringAgain
import BatchStore.Proofs.FileLogs
import BatchStore.Proofs.OrderBinding
import BatchStore.Proofs.FailedOpening
import BatchStore.Proofs.Pruning
import BatchStore.Proofs.MemoryUsage
import BatchStore.Proofs.DamagedLengths
import BatchStore.Proofs.Horizon
import BatchStore.Proofs.FaultyRecovery
import BatchStore.Proofs.Acceptance
import BatchStore.Proofs.Truncation
import BatchStore.Proofs.Appending
import BatchStore.Proofs.Rebuilding
import BatchStore.Proofs.Driving
import BatchStore.Proofs.Cursors
import BatchStore.Proofs.Closing
import BatchStore.Proofs.Handles
import BatchStore.Proofs.StoredSettings
import BatchStore.Proofs.WordReading
import BatchStore.Proofs.PrefixCodes
