import ScopedUndo.Text.Lower
import ScopedUndo.Scope.Registry
import ScopedUndo.LogLevel
import ScopedUndo.Cli.Error
import ScopedUndo.Stack
import ScopedUndo.Playback
import ScopedUndo.Ledger
import ScopedUndo.Engine.Worker
import ScopedUndo.Engine.Bus
import ScopedUndo.Workbench
import ScopedUndo.Script
import ScopedUndo.Session
import ScopedUndo.Value.Json
import ScopedUndo.Value.Read
import ScopedUndo.Yaml
import ScopedUndo.Config.Document
import ScopedUndo.Config.Yaml
import ScopedUndo.Config.File
import ScopedUndo.Cli.Args
import ScopedUndo.Cli.Run
import ScopedUndo.Main
import ScopedUndo.Proofs.Engine.History
import ScopedUndo.Proofs.Engine.Status
import ScopedUndo.Proofs.Engine.Clear
import ScopedUndo.Proofs.Trim
import ScopedUndo.Proofs.Engine.Queue
import ScopedUndo.Proofs.Engine.Events
import ScopedUndo.Proofs.Engine.Work
import ScopedUndo.Proofs.Ledger.Replay
import ScopedUndo.Proofs.Ledger.Consistency
import ScopedUndo.Proofs.Ledger.Scripts
import ScopedUndo.Proofs.Calls
import ScopedUndo.Proofs.Engine.Jump
import ScopedUndo.Proofs.Engine.Touch
import ScopedUndo.Proofs.Engine.RoundTrip
import ScopedUndo.Proofs.Resolution
import ScopedUndo.Proofs.Grammar
import ScopedUndo.Proofs.Reports
import ScopedUndo.Proofs.ScopeAlgebra
import ScopedUndo.Proofs.NameLists
import ScopedUndo.Proofs.Startup
