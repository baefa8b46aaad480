import MyLinuxOS.Foundation.Search
import MyLinuxOS.Foundation.Runs
import MyLinuxOS.Foundation.Brackets
import MyLinuxOS.Foundation.ParentChain
import MyLinuxOS.Foundation.Bytes
import MyLinuxOS.Foundation.PageWalk
import MyLinuxOS.Foundation.Copy
import MyLinuxOS.Foundation.Linked
import MyLinuxOS.Foundation.Spans
import MyLinuxOS.Foundation.TextGrid
import MyLinuxOS.Foundation.Numerals
import MyLinuxOS.Foundation.Lines
import MyLinuxOS.Kernel.Filesys
import MyLinuxOS.Kernel.Console
import MyLinuxOS.Kernel.Memcpy
import MyLinuxOS.Kernel.Keyboard
import MyLinuxOS.Kernel.Itoa
import MyLinuxOS.Kernel.Printf
import MyLinuxOS.Kernel.ConversionBuffers
import MyLinuxOS.Kernel.Rtc
import MyLinuxOS.Kernel.Paging
import MyLinuxOS.Kernel.Process
import MyLinuxOS.Kernel.Syscall
import MyLinuxOS.Kernel.Execute
import MyLinuxOS.Kernel.Terminal
import MyLinuxOS.Kernel.KeyInterrupt
import MyLinuxOS.Process.ExecuteSpec
import MyLinuxOS.Process.Lineage
import MyLinuxOS.Process.Calls
import MyLinuxOS.Process.Nesting
import MyLinuxOS.Process.FailedExecute
import MyLinuxOS.Process.Identity
import MyLinuxOS.Process.ExceptionFlag
import MyLinuxOS.Files.ReadData
import MyLinuxOS.Files.Descriptors
import MyLinuxOS.Files.FdTable
import MyLinuxOS.Files.SequentialRead
import MyLinuxOS.Files.Validation
import MyLinuxOS.Files.UserBuffers
import MyLinuxOS.Files.Directory
import MyLinuxOS.Process.Arguments
import MyLinuxOS.Process.ArgumentLeak
import MyLinuxOS.Process.ArgumentBuffer
import MyLinuxOS.Process.SystemCalls
import MyLinuxOS.Process.CleanDescriptors
import MyLinuxOS.Memory.Tables
import MyLinuxOS.Memory.Translation
import MyLinuxOS.Memory.VideoMapping
import MyLinuxOS.Foundation.Stack
import MyLinuxOS.Foundation.Bitfield
import MyLinuxOS.Kernel.Processor
import MyLinuxOS.Kernel.Linkage
import MyLinuxOS.Linkage.Stacks
import MyLinuxOS.Linkage.Frames
import MyLinuxOS.Linkage.Calls
import MyLinuxOS.Linkage.Library
import MyLinuxOS.Linkage.Nested
import MyLinuxOS.Linkage.Interrupts
import MyLinuxOS.Kernel.Descriptors
import MyLinuxOS.Linkage.Gates
import MyLinuxOS.Terminal.Keys
import MyLinuxOS.Terminal.Events
import MyLinuxOS.Terminal.BufferBound
import MyLinuxOS.Terminal.LineBuffer
import MyLinuxOS.Terminal.ConsoleWrites
import MyLinuxOS.Terminal.Scroll
import MyLinuxOS.Terminal.Rendering
import MyLinuxOS.Terminal.Backspacing
import MyLinuxOS.Terminal.Cursor
import MyLinuxOS.Terminal.Screens
import MyLinuxOS.Terminal.Reader
import MyLinuxOS.Terminal.TypedLines
import MyLinuxOS.Clock.Frequency
import MyLinuxOS.Clock.Ticks
import MyLinuxOS.Fish.Blink
import MyLinuxOS.Fish.BlinkList
import MyLinuxOS.Fish.Phases
import MyLinuxOS.Files.Lookup
import MyLinuxOS.Process.ExitStatus
import MyLinuxOS.Process.Parsing
import MyLinuxOS.Process.ParsingLimits
import MyLinuxOS.Files.ImageReads
import MyLinuxOS.Process.Executables
import MyLinuxOS.Memory.Loading
import MyLinuxOS.Text.Numbers
import MyLinuxOS.Text.Formats
import MyLinuxOS.Text.BufferBounds
import MyLinuxOS.Text.Encoding
import MyLinuxOS.Grep.Program
import MyLinuxOS.Grep.Search
import MyLinuxOS.Grep.Chunks
import MyLinuxOS.Grep.Streaming
import MyLinuxOS.Foundation.Programs
import MyLinuxOS.Programs.World
import MyLinuxOS.Programs.Copying
import MyLinuxOS.Programs.Lifecycle
import MyLinuxOS.Grep.Termination
import MyLinuxOS.Programs.Grep
import MyLinuxOS.Programs.Shell
