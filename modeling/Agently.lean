import Agently.TriggerFlow.ResumeFailure
import Agently.TriggerFlow.DispatchOnce
import Agently.TriggerFlow.SelfResume
import Agently.TriggerFlow.ResumeBudget
import Agently.Operation.GateReuse
import Agently.TaskDAG.ApprovalGating
import Agently.TriggerFlow.ResumeDecisions
import Agently.TaskDAG.CompiledGraphs
import Agently.TaskDAG.PrunedGraphs
import Agently.Blocks.CapabilityGates
import Agently.Blocks.CancelledScopes
import Agently.TaskDAG.PathAgreement
import Agently.TriggerFlow.LoadAtomicity
import Agently.TriggerFlow.LayeredGates
import Agently.TriggerFlow.GateFirings
import Agently.TriggerFlow.BatchFanOuts
import Agently.TriggerFlow.ForEachLoops
import Agently.TriggerFlow.SubFlowResumes
import Agently.TriggerFlow.WriteBack
import Agently.TriggerFlow.LoaderAtomicity
import Agently.TriggerFlow.PermitFrames
import Agently.TriggerFlow.Chains
import Agently.TriggerFlow.WaitingStatus
import Agently.TriggerFlow.InterventionHistory
import Agently.TriggerFlow.SubFlowCancel
import Agently.TriggerFlow.TerminalClose
import Agently.TriggerFlow.SealedSignals
import Agently.TaskBoard.RecordedResults
import Agently.TaskBoard.FrontierTicks
import Agently.TaskBoard.ResumedTicks
import Agently.AgentTask.RestoredCatalogs
import Agently.AgentTask.TerminalConvergence
import Agently.AgentTask.EvidenceLedger
import Agently.AgentTask.EvidenceUse
import Agently.Utils.ScheduledRuns
import Agently.Utils.StreamingJSONCompleter
import Agently.Utils.PathDecoding
import Agently.Utils.NearestLayer
import Agently.Utils.SetObjects
import Agently.Utils.ObservedPaths
import Agently.Operation.ResourceRuns
import Agently.Operation.ProviderSelection
import Agently.Operation.ResourceScopes
import Agently.Operation.LiveWaits
import Agently.TaskWorkspace.ConfinedWrites
import Agently.TaskWorkspace.ContentIdentities
import Agently.TaskWorkspace.EditedFiles
import Agently.TaskWorkspace.FileWindows
import Agently.Storage.RetrievalPackages
import Agently.Model.RetryBound
import Agently.ResponseParser.ThinkSplits
import Agently.Action.PlannedAuthority
import Agently.Utils.ConsumedStreams
import Agently.Model.AttemptLifecycle
import Agently.Storage.LeaseExclusion
import Agently.Storage.EventLog
import Agently.Storage.ChunkedReads
import Agently.TaskBoard.PlannedCards
import Agently.TaskBoard.PatchedRevisions
import Agently.TaskBoard.BoardRuns
import Agently.TaskBoard.ClosedTicks
import Agently.Session.ContextWindow
