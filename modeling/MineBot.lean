import MineBot.Acquisition
import MineBot.AcquisitionPlans
import MineBot.AnthropicAgreement
import MineBot.AnthropicModel
import MineBot.AnthropicRequest
import MineBot.ArrivalOrder
import MineBot.BodyControl
import MineBot.BodyEvents
import MineBot.CallTraces
import MineBot.Compaction
import MineBot.CompletionBudget
import MineBot.ContinuationBudget
import MineBot.ConversationArchive
import MineBot.CraftAllocation
import MineBot.CraftCompleteness
import MineBot.CraftPlanning
import MineBot.DecisionClient
import MineBot.Dict
import MineBot.Doubles
import MineBot.EnsureItem
import MineBot.EnsureVerdict
import MineBot.EpochAccounts
import MineBot.EpochAdapter
import MineBot.EventCursor
import MineBot.EventSequence
import MineBot.EvidenceLedger
import MineBot.ExecutionSnapshots
import MineBot.Forwarding
import MineBot.FrameCodec
import MineBot.FrontierSearch
import MineBot.GoalCommands
import MineBot.GoalHeuristics
import MineBot.Governance
import MineBot.GovernanceConfirmation
import MineBot.GovernanceRedLine
import MineBot.GreedyMatching
import MineBot.HighWater
import MineBot.History
import MineBot.InputWindow
import MineBot.IntOrder
import MineBot.Interleaving
import MineBot.JavaBodyClient
import MineBot.JavaBodyProtocol
import MineBot.Json
import MineBot.LeaseFencing
import MineBot.LedgerSteps
import MineBot.LifeBoundary
import MineBot.LifeProfile
import MineBot.LifeShape
import MineBot.MemoryChains
import MineBot.MemorySearch
import MineBot.MemoryStore
import MineBot.Navigation
import MineBot.ObjectiveAgreement
import MineBot.ObjectiveFields
import MineBot.ObjectiveMeaning
import MineBot.ObjectiveReader
import MineBot.ObjectiveText
import MineBot.ObjectiveWriting
import MineBot.ObserverControl
import MineBot.ObserverFencing
import MineBot.ObserverRefusals
import MineBot.Orphans
import MineBot.PathAgreement
import MineBot.PathCompleteness
import MineBot.PathCosts
import MineBot.PathPlanner
import MineBot.PathRecheck
import MineBot.PathStanding
import MineBot.PathTrail
import MineBot.PlanCompaction
import MineBot.PlanExecution
import MineBot.PollEvents
import MineBot.Principals
import MineBot.ProgressAuthority
import MineBot.ProgressEpochs
import MineBot.ProgressRecovery
import MineBot.QueueEquivalence
import MineBot.Rcon
import MineBot.RealClientActions
import MineBot.RealClientBody
import MineBot.RealClientControl
import MineBot.RealClientEvents
import MineBot.Reconciliation
import MineBot.Reconnect
import MineBot.RecoveryAccounting
import MineBot.RecoveryAdmission
import MineBot.RecoveryHistory
import MineBot.Regex
import MineBot.RepeatedSamples
import MineBot.RequestEnvelope
import MineBot.ResponsesEffects
import MineBot.ResponsesHistory
import MineBot.ResponsesInputs
import MineBot.ResponsesKernel
import MineBot.ResponsesRequests
import MineBot.ResponsesSpeech
import MineBot.Results
import MineBot.RuntimeRecords
import MineBot.SampleRepeats
import MineBot.ScanEvidence
import MineBot.ScarpetCalls
import MineBot.ScarpetEnvelopes
import MineBot.SegmentTargets
import MineBot.SessionAdmission
import MineBot.SkillFormat
import MineBot.SkillLines
import MineBot.SkillRoundTrip
import MineBot.SkillText
import MineBot.StreamDecoder
import MineBot.StructureRisk
import MineBot.SurveyRoute
import MineBot.SurveyRuns
import MineBot.Table
import MineBot.TaskStore
import MineBot.TaskWorkspace
import MineBot.Text
import MineBot.Tickets
import MineBot.WorkBatches
import MineBot.WorkEndings
import MineBot.WorkExecutor
import MineBot.WorkGuards
import MineBot.WorkIntents
import MineBot.WorkOwnership
import MineBot.WorkPlaces
import MineBot.WorkPlan
import MineBot.WorkQueue
import MineBot.WorkSteps
