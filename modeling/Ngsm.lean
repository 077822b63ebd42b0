import Ngsm.Lib.Program
import Ngsm.Lib.NameTable
import Ngsm.Lib.Utf16
import Ngsm.Lib.WriteFirst
import Ngsm.Lib.Text
import Ngsm.Core.Config
import Ngsm.Core.Validate
import Ngsm.Registry.Store
import Ngsm.Registry.Codec
import Ngsm.Registry.Schema
import Ngsm.Registry.Read
import Ngsm.Registry.Preflight
import Ngsm.Registry.Rules
import Ngsm.Registry.Names
import Ngsm.Registry.Write
import Ngsm.Registry.Reconcile
import Ngsm.Registry.ReconcileHooks
import Ngsm.Registry.WriteSpec
import Ngsm.Registry.ReadSpec
import Ngsm.Registry.RoundTrip
import Ngsm.Registry.ReadBack
import Ngsm.Registry.Guarantees
import Ngsm.Registry.Recovery
import Ngsm.Registry.Refusals
import Ngsm.Registry.Cut
import Ngsm.Ops.Edit
import Ngsm.Ops.EditAtomic
import Ngsm.Ops.EditExact
import Ngsm.Supervisor.Transition
import Ngsm.Supervisor.PauseState
import Ngsm.Supervisor.PauseLedger
import Ngsm.Supervisor.PauseJob
import Ngsm.Supervisor.Output
import Ngsm.Lib.Keeps
import Ngsm.Lib.Locking
import Ngsm.Supervisor.World
import Ngsm.Supervisor.Generations
import Ngsm.Supervisor.Run
import Ngsm.Supervisor.Steady
import Ngsm.Supervisor.Controls
import Ngsm.Supervisor.Lasting
import Ngsm.Supervisor.PauseGate
import Ngsm.Supervisor.Answers
import Ngsm.Supervisor.Rotation
import Ngsm.Supervisor.Lifecycle
import Ngsm.Supervisor.Refinement
import Ngsm.Supervisor.Cleanup
import Ngsm.Supervisor.Rounds
import Ngsm.Supervisor.Verdict
import Ngsm.Supervisor.Bookkeeping
import Ngsm.Supervisor.StartRecords
import Ngsm.Supervisor.PolicyRun
import Ngsm.Lib.ArgumentVector
import Ngsm.Core.Quote
import Ngsm.Core.ImagePath
import Ngsm.Core.Expansion
import Ngsm.Core.References
import Ngsm.Win32.RunnerCommand
import Ngsm.Win32.Recognition
import Ngsm.Gui.LogContext
import Ngsm.Lib.Runs
import Ngsm.Broker.Activity
import Ngsm.Ops.Specs
import Ngsm.Gui.Requests
import Ngsm.Gui.Editors
import Ngsm.Broker.Connection
import Ngsm.Lib.Chronicle
import Ngsm.Gui.Metrics
import Ngsm.Gui.History
import Ngsm.Gui.Availability
import Ngsm.Supervisor.Launch
import Ngsm.Ops.Install
import Ngsm.Registry.ExitNames
import Ngsm.Ops.Recovery
import Ngsm.Ops.RecoveryPolicy
import Ngsm.Ops.SingleValue
import Ngsm.Ops.Fields
import Ngsm.Ops.Sound
import Ngsm.Ops.ValueCalls
import Ngsm.Ops.MultiValue
import Ngsm.Registry.StringForms
import Ngsm.Core.Resolution
import Ngsm.Core.ImageSlices
import Ngsm.Gui.Intervals
import Ngsm.Ops.Restart
import Ngsm.Lib.Bindings
import Ngsm.Supervisor.HookEnvironment
import Ngsm.Lib.History
import Ngsm.Supervisor.RotationHooks
import Ngsm.Supervisor.Sinks
import Ngsm.Lib.Fair
import Ngsm.Gui.JobQueue
import Ngsm.Gui.RefreshCoverage
import Ngsm.Supervisor.EventRotation
import Ngsm.Win32.ControlChannel
import Ngsm.Win32.ControlContract
import Ngsm.Lib.Script
import Ngsm.Ops.ConfigLock
import Ngsm.Ops.StoredFields
import Ngsm.Ops.Untouched
import Ngsm.Ops.Concurrent
import Ngsm.Lib.Terminated
import Ngsm.Win32.Dependencies
import Ngsm.Win32.Affinity
import Ngsm.Lib.BreadthFirst
import Ngsm.Win32.ProcessTree
import Ngsm.Lib.ByteStream
import Ngsm.Broker.Frame
import Ngsm.Lib.Lines
import Ngsm.Gui.BoundedLog
import Ngsm.Lib.Timeline
import Ngsm.Supervisor.RotationSink
import Ngsm.Supervisor.Archives
import Ngsm.Supervisor.RotationRuns
import Ngsm.Lib.Dialogue
import Ngsm.Runner.Bridge
import Ngsm.Runner.Conduct
import Ngsm.Runner.Session
import Ngsm.Runner.Protocol
import Ngsm.Lib.Interleaving
import Ngsm.Supervisor.HandOff
import Ngsm.Runner.HandOver
import Ngsm.Lib.AccessControl
import Ngsm.Win32.RunnerAcl
import Ngsm.Win32.AceLayout
import Ngsm.Win32.AclDecision
import Ngsm.Win32.RunnerLocation
import Ngsm.Broker.Watch
import Ngsm.Broker.PipeServer
import Ngsm.Lib.Transcript
import Ngsm.Win32.ServiceApi
import Ngsm.Ops.Generic
import Ngsm.Ops.Operations
import Ngsm.Ops.Warrant
import Ngsm.Ops.Discipline
import Ngsm.Ops.LockedOperations
import Ngsm.Broker.Handlers
import Ngsm.Broker.Authority
import Ngsm.Ops.Remains
import Ngsm.Ops.Purge
import Ngsm.Gui.EventFiles
import Ngsm.Ops.PolicyInForce
import Ngsm.Gui.RecoveryForm
import Ngsm.Cli.Recovery
import Ngsm.Supervisor.Diagnostics
import Ngsm.Supervisor.Waits
import Ngsm.Supervisor.CalmStart
import Ngsm.Supervisor.RotationFiles
import Ngsm.Supervisor.RotationTurns
