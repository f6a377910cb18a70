import QuickJSBridge.HostProgram
import QuickJSBridge.ReentrantMachine
import QuickJSBridge.NestedRuns
import QuickJSBridge.ProofOutlines
import QuickJSBridge.GuardedCalls
import QuickJSBridge.AwaitedUses
import QuickJSBridge.ExecutionHistories
import QuickJSBridge.Sessions
import QuickJSBridge.OwnedResources
import QuickJSBridge.PermittedCommands
import QuickJSBridge.ModifiedUtf8
import QuickJSBridge.EngineText
import QuickJSBridge.EngineValues
import QuickJSBridge.BridgeState
import QuickJSBridge.ForeignCalls
import QuickJSBridge.Marshalling
import QuickJSBridge.ErrorReporting
import QuickJSBridge.WrapperOperations
import QuickJSBridge.JavaApi
import QuickJSBridge.BridgeMachine
import QuickJSBridge.TextMarshalling
import QuickJSBridge.ReferenceCounts
import QuickJSBridge.StoreInvariant
import QuickJSBridge.OperationSafety
import QuickJSBridge.HandleLiveness
import QuickJSBridge.CommandBounds
import QuickJSBridge.HandedValues
import QuickJSBridge.SharedRegistry
import QuickJSBridge.Agenda
import QuickJSBridge.OpaqueSlot
import QuickJSBridge.CallbackRegistry
import QuickJSBridge.AwaitedCallbacks
import QuickJSBridge.RegisteredCallbacks
import QuickJSBridge.ReceiverValidity
import QuickJSBridge.OperationPhases
import QuickJSBridge.MainEvaluations
import QuickJSBridge.RunToCompletion
import QuickJSBridge.JobQueue
import QuickJSBridge.UnhandledRejections
import QuickJSBridge.FailureReporting
import QuickJSBridge.ThrownValues
import QuickJSBridge.ReportedErrors
import QuickJSBridge.CheckedCalls
import QuickJSBridge.ReferenceLedger
import QuickJSBridge.ErrorHandlers
import QuickJSBridge.ArgumentReferences
import QuickJSBridge.CallbackOutcomes
import QuickJSBridge.ObjectAccounts
import QuickJSBridge.ThreadAffinity
import QuickJSBridge.StringLiterals
import QuickJSBridge.OutputStatements
import QuickJSBridge.NumberMarshalling
import QuickJSBridge.ResultRelease
import QuickJSBridge.RepeatedFrees
import QuickJSBridge.TableEffects
import QuickJSBridge.HelperHandles
import QuickJSBridge.ScriptObjects
import QuickJSBridge.PropertyStore
import QuickJSBridge.PropertyOperations
import QuickJSBridge.PropertyRoundTrips
import QuickJSBridge.ArrayElements
import QuickJSBridge.RejectedWrites
import QuickJSBridge.ExportedMethods
import QuickJSBridge.GlobalObject
import QuickJSBridge.ScriptContexts
import QuickJSBridge.BindingAgreement
import QuickJSBridge.ContextUpdates
import QuickJSBridge.CompiledScripts
import QuickJSBridge.StdEvaluation
import QuickJSBridge.NestedEvaluation
import QuickJSBridge.AttributeWrites
import QuickJSBridge.CountedGraphs
import QuickJSBridge.CollectedHeap
import QuickJSBridge.TrialDeletion
import QuickJSBridge.CycleRemoval
import QuickJSBridge.CollectorRuns
import QuickJSBridge.CollectedWorlds
import QuickJSBridge.HashChains
import QuickJSBridge.AtomTable
import QuickJSBridge.AtomInterning
import QuickJSBridge.AtomReferences
import QuickJSBridge.NumericKeys
import QuickJSBridge.AtomKeys
import QuickJSBridge.AtomValues
import QuickJSBridge.AtomStart
import QuickJSBridge.AtomRuns
import QuickJSBridge.ShapeTable
import QuickJSBridge.ShapeIndex
import QuickJSBridge.ShapeHeap
import QuickJSBridge.ShapeUpdates
import QuickJSBridge.ShapeOperations
import QuickJSBridge.ShapeRuns
