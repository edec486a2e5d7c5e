import CrashFuzz.Lib.Subsets
import CrashFuzz.Trace.Reader
import CrashFuzz.Enumerate.States
import CrashFuzz.Enumerate.Floor
import CrashFuzz.Enumerate.Durability
import CrashFuzz.Enumerate.Space
import CrashFuzz.Enumerate.Tearing
import CrashFuzz.Enumerate.Window
import CrashFuzz.Enumerate.Creation
import CrashFuzz.Trace.Confinement
import CrashFuzz.Lib.FileTree
import CrashFuzz.Trace.Apply
import CrashFuzz.Trace.Names
import CrashFuzz.Enumerate.Materialize
import CrashFuzz.Lib.Ledger
import CrashFuzz.Lib.Runs
import CrashFuzz.Lib.Mirror
import CrashFuzz.Shim.Capture
import CrashFuzz.Shim.TraceText
import CrashFuzz.Shim.Reproduce
import CrashFuzz.Shim.ShortWrites
import CrashFuzz.Shim.Offsets
import CrashFuzz.Shim.Descriptors
import CrashFuzz.Shim.Follows
import CrashFuzz.Enumerate.Sample
import CrashFuzz.Enumerate.Selection
import CrashFuzz.Enumerate.Issued
import CrashFuzz.Enumerate.Ordering
import CrashFuzz.Lib.Decimal
import CrashFuzz.Lib.Json
import CrashFuzz.Trace.ReadLine
import CrashFuzz.Trace.Segments
import CrashFuzz.Shim.Encoding
import CrashFuzz.Lib.ErrorVariable
import CrashFuzz.Shim.Errno
import CrashFuzz.Shim.Stamps
import CrashFuzz.Oracle.Reproducer
import CrashFuzz.Oracle.AckLog
import CrashFuzz.Oracle.Promises
import CrashFuzz.Oracle.Query
import CrashFuzz.Lib.Words
import CrashFuzz.Lib.Sha256
import CrashFuzz.Shim.Sha256
import CrashFuzz.Shim.PayloadStore
import CrashFuzz.Oracle.Dedup
import CrashFuzz.Oracle.Signatures
import CrashFuzz.Campaign.Blame
import CrashFuzz.Campaign.Campaign
import CrashFuzz.Campaign.Occurrences
import CrashFuzz.Campaign.Artifacts
import CrashFuzz.Lib.PathLookup
import CrashFuzz.Shim.AtPaths
import CrashFuzz.Enumerate.Contents
import CrashFuzz.Oracle.Recover
import CrashFuzz.Campaign.UnsafeKv
import CrashFuzz.Campaign.PositiveControl
import CrashFuzz.Campaign.UnsafeKvRun
import CrashFuzz.Lib.Replace
import CrashFuzz.Oracle.RunScript
import CrashFuzz.Shim.Record
import CrashFuzz.Shim.Flags
import CrashFuzz.Lib.JsonTokens
import CrashFuzz.Enumerate.Bounds
import CrashFuzz.Campaign.Soundness
import CrashFuzz.Enumerate.Causality
import CrashFuzz.Campaign.Interruption
import CrashFuzz.Lib.Effects
import CrashFuzz.Image.Host
import CrashFuzz.Image.Mount
import CrashFuzz.Campaign.Hosted
import CrashFuzz.Oracle.ShortMarkers
import CrashFuzz.Targets.Workload
import CrashFuzz.Targets.Acknowledged
import CrashFuzz.Targets.Controls
import CrashFuzz.Campaign.Packaged
import CrashFuzz.Campaign.Sweep
import CrashFuzz.Campaign.HostedSweep
import CrashFuzz.Campaign.Results
import CrashFuzz.Campaign.Command
import CrashFuzz.Campaign.Exhaustive
import CrashFuzz.Lib.Writeback
import CrashFuzz.Enumerate.Disk
