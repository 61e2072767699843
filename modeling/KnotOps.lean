import KnotOps.Machine
import KnotOps.Lockstep
import KnotOps.Poll
import KnotOps.Decimal
import KnotOps.Terminal.Start
import KnotOps.Terminal.StatusMap
import KnotOps.Terminal.TaskRefinement
import KnotOps.Terminal.Sequential
import KnotOps.Terminal.SequenceRefinement
import KnotOps.Terminal.SequenceRuns
import KnotOps.Terminal.RootOutcome
import KnotOps.Terminal.Engine
import KnotOps.Terminal.Block
import KnotOps.Terminal.SessionMoves
import KnotOps.Terminal.Anchor
import KnotOps.Terminal.Blocks
import KnotOps.Facade.Recovery
import KnotOps.Sys.Process
import KnotOps.Sys.Signals
import KnotOps.Facade.Kill
import KnotOps.Sys.Bind
import KnotOps.Facade.Revision
import KnotOps.Facade.Workspaces
import KnotOps.Facade.Cleanup
import KnotOps.Terminal.Children
import KnotOps.Terminal.Results
import KnotOps.Terminal.Idle
import KnotOps.Terminal.Starts
import KnotOps.Retry
import KnotOps.Sys.Spawn
import KnotOps.Facade.Launch
import KnotOps.Template
import KnotOps.Terminal.Drawing
import KnotOps.Sys.Names
import KnotOps.Channel
import KnotOps.Grpc.Acceptor
import KnotOps.Grpc.Bind
import KnotOps.Sys.Wait
import KnotOps.Terminal.Drawn
import KnotOps.Terminal.Plain
import KnotOps.Terminal.Authors
import KnotOps.Terminal.PlainLog
import KnotOps.Terminal.Modes
import KnotOps.Terminal.Threads
import KnotOps.Sys.MacosWait
import KnotOps.Facade.LinuxKill
import KnotOps.Facade.WindowsKill
import KnotOps.Facade.LockFile
import KnotOps.Facade.Recognition
import KnotOps.Facade.InspectionRefinement
import KnotOps.Terminal.Report
import KnotOps.Facade.WaitFree
import KnotOps.Grpc.Delivery
