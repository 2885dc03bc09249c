import Plexil.Util.StateMachine
import Plexil.Intfc.ResourceArbiter
import Plexil.Intfc.ArbiterBounds
import Plexil.Intfc.ArbiterLedger
import Plexil.Util.Descent
import Plexil.Util.StableSort
import Plexil.Intfc.HierarchyReader
import Plexil.Intfc.ArbitrationOrder
import Plexil.Intfc.ExplicitRequests
import Plexil.Intfc.CommandReservations
import Plexil.Util.Binary64
import Plexil.Util.Buffer
import Plexil.Util.Lexicographic
import Plexil.Util.FloatingPoint
import Plexil.Value.ValueType
import Plexil.Value.Value
import Plexil.Value.Serialize
import Plexil.Value.Ordering
import Plexil.Value.RoundTrip
import Plexil.Intfc.State
import Plexil.Intfc.StateOrdering
import Plexil.Intfc.StateRoundTrip
import Plexil.Value.SerialSize
import Plexil.Intfc.ThresholdCache
import Plexil.Intfc.LookupOnChange
import Plexil.Intfc.LookupSpec
import Plexil.Intfc.ThresholdCoherence
import Plexil.Intfc.ToleranceLaw
import Plexil.Expr.Variable
import Plexil.Expr.ArrayActivation
import Plexil.Util.Kleene
import Plexil.Util.CheckedInt
import Plexil.Expr.Function
import Plexil.Expr.BooleanOperators
import Plexil.Expr.ArithmeticOperators
import Plexil.Exec.Assignment
import Plexil.Exec.SimultaneousAssignment
import Plexil.Exec.Retraction
import Plexil.Util.LinkedQueue
import Plexil.Node.Types
import Plexil.Node.Forest
import Plexil.Node.DestState
import Plexil.Exec.State
import Plexil.Exec.Conditions
import Plexil.Exec.Resources
import Plexil.Exec.Transition
import Plexil.Exec.Step
import Plexil.Exec.QueueSpec
import Plexil.Exec.ResourcesSpec
import Plexil.Exec.TransitionSpec
import Plexil.Exec.Moves
import Plexil.Exec.CoreStep
import Plexil.Exec.CoreSpec
import Plexil.Exec.MutualExclusion
import Plexil.Exec.SettledStatus
import Plexil.Exec.QueueErrors
import Plexil.Exec.QueueMembership
import Plexil.Exec.Phases
import Plexil.Exec.ResourceLeak
import Plexil.Exec.WaiterCoherence
import Plexil.Exec.PriorityGrants
import Plexil.Exec.Outputs
import Plexil.Exec.UpdateSpec
import Plexil.Exec.LinearOutputs
import Plexil.Exec.DeletionSafety
import Plexil.Intfc.CachedValue
import Plexil.Intfc.StateCache
import Plexil.Intfc.CacheEntries
import Plexil.Intfc.DanglingEntries
import Plexil.Intfc.MessageHandles
import Plexil.Util.LinkedList
import Plexil.Intfc.QueueEntry
import Plexil.AppFramework.SimpleInputQueue
import Plexil.AppFramework.InterfaceManager
import Plexil.AppFramework.EventFidelity
import Plexil.Util.Interleaving
import Plexil.Interfaces.IpcFormats
import Plexil.Interfaces.IpcFacade
import Plexil.Interfaces.IpcReceiver
import Plexil.Interfaces.IpcReassembly
import Plexil.Epx.CorePlexil
import Plexil.Epx.Family
import Plexil.Epx.FamilySpec
import Plexil.Epx.Sequences
import Plexil.Epx.SequenceOrdering
import Plexil.Epx.Uncut
import Plexil.Epx.Try
import Plexil.Epx.TryOrdering
import Plexil.Xml.Plan
import Plexil.Xml.Finalize
import Plexil.Xml.InParameters
import Plexil.Xml.Check
import Plexil.Xml.ReadOnlyParameters
import Plexil.Xml.Scopes
import Plexil.Xml.LexicalScope
import Plexil.Epx.Iterations
import Plexil.Epx.TestNodes
import Plexil.Epx.CheckNode
import Plexil.Epx.If
import Plexil.Epx.IfCheck
import Plexil.Epx.IfTests
import Plexil.Epx.IfChain
import Plexil.Epx.IfBasic
import Plexil.Epx.IfBranches
import Plexil.Epx.Loops
import Plexil.Epx.WhileLoops
import Plexil.Epx.WhileRuns
import Plexil.Epx.ForLoops
import Plexil.Epx.LoopRuns
import Plexil.Exec.OutcomeCoherence
import Plexil.Util.ActivationCount
import Plexil.Exec.Activations
import Plexil.Exec.ActivationBalance
import Plexil.Exec.ConditionActivity
import Plexil.Exec.AncestorConditions
import Plexil.Exec.FamilyCoherence
import Plexil.Exec.SelfDeadlock
import Plexil.Util.CallStacks
import Plexil.AppFramework.ExecApplication
import Plexil.AppFramework.Threads
import Plexil.AppFramework.Completion
import Plexil.AppFramework.EventLoop
import Plexil.Util.PriorityOrder
import Plexil.Utils.LinkedQueue
import Plexil.Utils.QueueSpec
import Plexil.Utils.QueueRuns
import Plexil.Utils.TimeArithmetic
import Plexil.Value.VectorValue
import Plexil.Util.PartialEquality
import Plexil.Value.EqualityKey
import Plexil.Intfc.CachedValueEquality
import Plexil.AppFramework.MessageAdapter
import Plexil.Intfc.LateReports
import Plexil.Intfc.CacheFreshness
import Plexil.Intfc.Registrations
import Plexil.Intfc.LookupRegistration
import Plexil.Xml.Operations
import Plexil.Util.Exceptions
import Plexil.Util.Slots
import Plexil.Util.Binary32
import Plexil.Util.Strtol
import Plexil.Xml.ArraySize
import Plexil.Interfaces.IpcSubscriptions
import Plexil.Util.Pairing
import Plexil.Interfaces.MessageQueueMap
import Plexil.Interfaces.MessagePairing
import Plexil.Interfaces.UdpMessage
import Plexil.Interfaces.UdpRoundTrip
import Plexil.Interfaces.UdpListener
import Plexil.Util.CallExpansion
import Plexil.Xml.PlanLibrary
import Plexil.Xml.NodeReferences
import Plexil.Xml.Lookups
import Plexil.Xml.CheckNode
import Plexil.Xml.WellFormed
import Plexil.Xml.DeclaredInterfaces
import Plexil.Apps.Simulator
import Plexil.Apps.WakeUps
import Plexil.AppFramework.Timebase
import Plexil.AppFramework.TimerWakeUps
import Plexil.Util.LiveIteration
import Plexil.Intfc.Notification
import Plexil.Intfc.NotifiedLookups
import Plexil.Expr.Comparisons
import Plexil.Xml.Comparisons
import Plexil.Compiler.StringLiteralNode
import Plexil.Compiler.StringTokens
import Plexil.Compiler.PlexilDataType
import Plexil.Compiler.LiteralNode
import Plexil.Compiler.IntegerLiterals
import Plexil.Compiler.ArrayLiteralNode
import Plexil.Compiler.CallChecks
import Plexil.Epx.OnCommand
import Plexil.Epx.OnCommandCheck
import Plexil.Epx.CommandNodes
import Plexil.Epx.OnCommandRuns
import Plexil.Epx.OnCommandDelivery
import Plexil.Epx.OnCommandFailures
import Plexil.Epx.OnCommandReturns
import Plexil.Util.LowerBound
import Plexil.Utils.SimpleMap
import Plexil.AppFramework.InputQueue
import Plexil.Expr.Accessors
import Plexil.Expr.AccessorAgreement
import Plexil.Xml.CalledNodes
import Plexil.AppFramework.Launcher
import Plexil.AppFramework.WrapperPlans
import Plexil.AppFramework.PassedArguments
import Plexil.Util.NaryTerms
import Plexil.Compiler.ExpressionTokens
import Plexil.Compiler.ExpressionGrammar
import Plexil.Compiler.ExpressionTrees
import Plexil.Decompiler.DecompiledText
import Plexil.Decompiler.Expressions
import Plexil.Util.ReferenceCounts
import Plexil.Expr.Notifier
import Plexil.Expr.ChangePropagation
import Plexil.Checkpoint.ReadWriteLock
import Plexil.Checkpoint.SaveManager
