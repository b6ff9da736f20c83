import UnixTerminal.Kernel.Lib
import UnixTerminal.Kernel.Files
import UnixTerminal.Kernel.ReadDataLoop
import UnixTerminal.Kernel.State
import UnixTerminal.Kernel.Console
import UnixTerminal.Kernel.Paging
import UnixTerminal.Kernel.Descriptors
import UnixTerminal.Kernel.Process
import UnixTerminal.Kernel.CommandLoops
import UnixTerminal.Kernel.Scheduler
import UnixTerminal.Kernel.Keyboard
import UnixTerminal.Kernel.Linkage
import UnixTerminal.Kernel.ReadStatements
import UnixTerminal.Kernel.HaltStatements
import UnixTerminal.Kernel.I8259
import UnixTerminal.Kernel.Rtc
import UnixTerminal.Kernel.MemRoutines
import UnixTerminal.Library.Run
import UnixTerminal.Library.Bits
import UnixTerminal.Library.Stacks
import UnixTerminal.Library.Interleave
import UnixTerminal.Library.RoundRobin
import UnixTerminal.Library.Holds
import UnixTerminal.Library.StackCode
import UnixTerminal.Library.CountedLoop
import UnixTerminal.Library.TracedArray
import UnixTerminal.Library.LowestFree
import UnixTerminal.Library.TextScreen
import UnixTerminal.Library.Footprint
import UnixTerminal.Proofs.Core
import UnixTerminal.Proofs.Descriptors
import UnixTerminal.Proofs.Transitions
import UnixTerminal.Proofs.Devices
import UnixTerminal.Proofs.Image
import UnixTerminal.Proofs.Boot
import UnixTerminal.Proofs.ExecuteFailure
import UnixTerminal.Proofs.ExecuteStarts
import UnixTerminal.Proofs.Isolation
import UnixTerminal.Proofs.DescriptorTable
import UnixTerminal.Proofs.ProgramLoad
import UnixTerminal.Proofs.ChildFiles
import UnixTerminal.Proofs.CommandSplit
import UnixTerminal.Proofs.CommandArgs
import UnixTerminal.Proofs.LineEditor
import UnixTerminal.Proofs.StdinSlot
import UnixTerminal.Proofs.LineFootprint
import UnixTerminal.Proofs.LineAccesses
import UnixTerminal.Proofs.PendingLine
import UnixTerminal.Proofs.FileNames
import UnixTerminal.Proofs.FileStream
import UnixTerminal.Proofs.ProcessTable
import UnixTerminal.Proofs.CurrentPcb
import UnixTerminal.Proofs.Nesting
import UnixTerminal.Proofs.Contexts
import UnixTerminal.Proofs.Callers
import UnixTerminal.Proofs.PcbFields
import UnixTerminal.Proofs.Records
import UnixTerminal.Proofs.Preemption
import UnixTerminal.Proofs.Scheduling
import UnixTerminal.Proofs.ScheduledTerminals
import UnixTerminal.Proofs.UserVideo
import UnixTerminal.Proofs.Volume
import UnixTerminal.Proofs.Listing
import UnixTerminal.Proofs.PrivateScreens
import UnixTerminal.Proofs.Buffers
import UnixTerminal.Proofs.KeyActions
import UnixTerminal.Proofs.KeyFrame
import UnixTerminal.Proofs.InputLines
import UnixTerminal.Proofs.IrqLines
import UnixTerminal.Proofs.RtcTicks
import UnixTerminal.Proofs.MemoryCopies
import UnixTerminal.Proofs.TypedInput
import UnixTerminal.Proofs.LineReader
import UnixTerminal.Proofs.TypedLines
import UnixTerminal.Proofs.Linkage
import UnixTerminal.Proofs.Cursor
import UnixTerminal.Proofs.ReadData
import UnixTerminal.Proofs.FilePosition
import UnixTerminal.Proofs.NameLookup
import UnixTerminal.Proofs.Allocation
import UnixTerminal.Proofs.OpenFrame
import UnixTerminal.Kernel.Printf
import UnixTerminal.Kernel.ScreenStores
import UnixTerminal.Library.Numeral
import UnixTerminal.Proofs.FormatString
import UnixTerminal.Proofs.ScreenOutput
import UnixTerminal.Library.Lines
import UnixTerminal.Programs.Grep
import UnixTerminal.Proofs.GrepStrings
import UnixTerminal.Proofs.GrepLines
import UnixTerminal.Proofs.GrepReads
import UnixTerminal.Library.LinkedList
import UnixTerminal.Programs.Blink
import UnixTerminal.Proofs.BlinkList
import UnixTerminal.Proofs.BlinkTicks
import UnixTerminal.Proofs.BlinkScreen
import UnixTerminal.Programs.Frames
import UnixTerminal.Proofs.FrameRows
import UnixTerminal.Proofs.Animation
import UnixTerminal.Programs.Calls
import UnixTerminal.Programs.Cat
import UnixTerminal.Programs.Typing
import UnixTerminal.Programs.Shell
import UnixTerminal.Proofs.ProgramRuns
import UnixTerminal.Proofs.CatFile
import UnixTerminal.Proofs.LsListing
import UnixTerminal.Proofs.KeyedLine
import UnixTerminal.Proofs.Conversations
import UnixTerminal.Proofs.ProgramReturns
import UnixTerminal.Proofs.ShellSession
