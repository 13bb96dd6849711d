import TownOS.Foundations.Durable
import TownOS.Foundations.Bytes
import TownOS.Foundations.Linked
import TownOS.Foundations.Slots
import TownOS.Foundations.Runs
import TownOS.Foundations.RingBuffer
import TownOS.Foundations.Words
import TownOS.Foundations.DoublyLinked
import TownOS.Foundations.Tiling
import TownOS.Foundations.Cells
import TownOS.Foundations.Rounds
import TownOS.Foundations.Requests
import TownOS.Foundations.Strings
import TownOS.Fat32.Volume
import TownOS.Fat32.Clusters
import TownOS.Fat32.Directory
import TownOS.Fat32.Files
import TownOS.Fat32.Layout
import TownOS.Fat32.Mount
import TownOS.Fat32.AsRead
import TownOS.Fat32.Chains
import TownOS.Fat32.Contents
import TownOS.Fat32.Catalog
import TownOS.Fat32.WellFormed
import TownOS.Fat32.Searches
import TownOS.Fat32.Corrupt
import TownOS.Fat32.AllOrNothing
import TownOS.Fat32.Updates
import TownOS.Fat32.Commit
import TownOS.Fat32.Operations
import TownOS.Fat32.Calls
import TownOS.Fat32.Refinement
import TownOS.Fat32.CrashSafety
import TownOS.Fat32.Accounting
import TownOS.Fat32.Names
import TownOS.Fat32.Listing
import TownOS.Fat32.Faults
import TownOS.Kernel.Machine
import TownOS.Kernel.Scheduler
import TownOS.Kernel.Files
import TownOS.Kernel.Lifecycle
import TownOS.Kernel.Signal
import TownOS.Kernel.Syscall
import TownOS.Kernel.Step
import TownOS.Kernel.Effects
import TownOS.Kernel.Deeds
import TownOS.Kernel.Endings
import TownOS.Kernel.Privilege
import TownOS.Kernel.Delivery
import TownOS.Kernel.Confinement
import TownOS.Kernel.Interrupted
import TownOS.Kernel.Handling
import TownOS.Kernel.Actions
import TownOS.Kernel.Handlers
import TownOS.Kernel.Moves
import TownOS.Kernel.Rotation
import TownOS.Kernel.Kill
import TownOS.Kernel.Overtaking
import TownOS.Kernel.Returns
import TownOS.Kernel.Reissue
import TownOS.Kernel.Ledger
import TownOS.Kernel.Descriptors
import TownOS.Kernel.FileObjects
import TownOS.Kernel.Wakeups
import TownOS.Kernel.Pipes
import TownOS.Kernel.Groups
import TownOS.Kernel.Keys
import TownOS.Kernel.Console
import TownOS.Memory.Frames
import TownOS.Memory.Usable
import TownOS.Memory.Heap
import TownOS.Memory.Layout
import TownOS.Memory.Allocator
import TownOS.Memory.Clients
import TownOS.Memory.DoubleFree
import TownOS.Memory.Refusals
import TownOS.Memory.Adjacent
import TownOS.Memory.Paging
import TownOS.Memory.Trees
import TownOS.Memory.Spaces
import TownOS.Memory.Teardown
import TownOS.Memory.Changes
import TownOS.Memory.Elf
import TownOS.Memory.Loading
import TownOS.Shell.Kill
import TownOS.Libc.Printf
import TownOS.Libc.Output
import TownOS.Shell.Program
import TownOS.Shell.Tokens
import TownOS.Shell.Names
import TownOS.Shell.Pipeline
