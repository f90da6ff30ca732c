import SystemProg.Lib.Run
import SystemProg.Lib.Refines
import SystemProg.Lib.Monitor
import SystemProg.Lib.Lines
import SystemProg.Lib.Stream
import SystemProg.Lib.Descriptors
import SystemProg.Lib.Cycles
import SystemProg.Rlist
import SystemProg.Rlist.Operations
import SystemProg.UserFs.Copy
import SystemProg.UserFs.Handle
import SystemProg.UserFs.Integrity
import SystemProg.UserFs.Effect
import SystemProg.UserFs.Linked
import SystemProg.UserFs.References
import SystemProg.UserFs.Storage
import SystemProg.UserFs.Cursors
import SystemProg.UserFs.Ghosts
import SystemProg.UserFs.Directory
import SystemProg.UserFs.Flat
import SystemProg.UserFs.Lookup
import SystemProg.UserFs.Last
import SystemProg.UserFs.Leaks
import SystemProg.UserFs.Refines
import SystemProg.Shell.Parser
import SystemProg.Shell.Chunks
import SystemProg.Shell.Grammar
import SystemProg.Shell.Lines
import SystemProg.Shell.Execute
import SystemProg.Shell.Exit
import SystemProg.Shell.Print
import SystemProg.Shell.Recovery
import SystemProg.Shell.Words
import SystemProg.Shell.Continuation
import SystemProg.Shell.Plumbing
import SystemProg.Coroutine.Closing
import SystemProg.Coroutine.Deletion
import SystemProg.Coroutine.Order
import SystemProg.Coroutine.Atomic
import SystemProg.Coroutine.Joins
import SystemProg.Coroutine.Scheduler
import SystemProg.Coroutine.Rests
import SystemProg.Coroutine.Rounds
import SystemProg.Coroutine.Heap
import SystemProg.Coroutine.Service
import SystemProg.ThreadPool.Counts
import SystemProg.Chat.Codec
import SystemProg.Chat.Delivery
import SystemProg.Chat.Edges
import SystemProg.Chat.Framing
import SystemProg.Chat.Outputs
import SystemProg.ThreadPool.Service
import SystemProg.ThreadPool.Staff
import SystemProg.Shell.Main
import SystemProg.Shell.Progress
import SystemProg.Shell.Wait
import SystemProg.Shell.Closes
import SystemProg.ThreadPool.Timed
import SystemProg.ThreadPool.Detach
import SystemProg.ThreadPool.Deadline
import SystemProg.ThreadPool.Sleeping
import SystemProg.Chat.Losses
import SystemProg.Chat.Reconnect
import SystemProg.BoostChat.Stopping
import SystemProg.Utils.Tracking
import SystemProg.IoCore.Edges
import SystemProg.IoCore.Answers
