import TradutorLinux.Rust.Oracle
import TradutorLinux.Rust.WireRoundTrip
import TradutorLinux.Loader.Protection
import TradutorLinux.Runtime.Heap
import TradutorLinux.Runtime.MemoryLimit
import TradutorLinux.Runtime.QueryPages
import TradutorLinux.Runtime.Dispatchers
import TradutorLinux.Sync.WaitOnAddress
import TradutorLinux.Sync.SrwLocks
import TradutorLinux.Sync.InitOnce
import TradutorLinux.Msix.RoundTrip
import TradutorLinux.Compat.LoadProfile
import TradutorLinux.Prefix.Confinement
import TradutorLinux.Compat.ExposureRuns
import TradutorLinux.Process.CommandLine
import TradutorLinux.Process.Handles
import TradutorLinux.Process.Environment
import TradutorLinux.Process.LocalStorageRuns
import TradutorLinux.Sync.CompletionPorts
import TradutorLinux.Runtime.CxxCleanup
import TradutorLinux.Crypto.CertStores
import TradutorLinux.Crypto.NameStrings
import TradutorLinux.Net.HandleTree
import TradutorLinux.Net.Timeouts
import TradutorLinux.Net.Urls
import TradutorLinux.Shell.PathCombine
import TradutorLinux.Shell.PathParts
import TradutorLinux.Net.RequestHeaders
import TradutorLinux.Net.Descriptors
import TradutorLinux.Net.SelectSets
import TradutorLinux.Net.LastErrors
import TradutorLinux.Registry.Identity
import TradutorLinux.Registry.CodePages
import TradutorLinux.Security.Renaming
import TradutorLinux.Security.Durability
import TradutorLinux.Com.Streams
import TradutorLinux.Com.TaskMemory
import TradutorLinux.Com.Variants
import TradutorLinux.Com.Sizes
import TradutorLinux.Gui.TreeRefines
import TradutorLinux.Gui.MenuForest
import TradutorLinux.Gui.WindowTree
import TradutorLinux.Gui.Posting
import TradutorLinux.Gui.MessageWaits
import TradutorLinux.Gui.PointMapping
import TradutorLinux.Gui.WindowText
import TradutorLinux.Gui.Accelerators
import TradutorLinux.Gui.HitTesting
import TradutorLinux.Gui.ListTexts
import TradutorLinux.Version.QueryExact
import TradutorLinux.Prefix.Wildcards
import TradutorLinux.Runtime.VectoredHandlers
import TradutorLinux.Prefix.FilePointers
import TradutorLinux.Runtime.ScopeTables
