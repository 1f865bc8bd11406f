import NaturalMold.OrderedDictionaries
import NaturalMold.FallibleSteps
import NaturalMold.FirstOccurrences
import NaturalMold.StepRuns
import NaturalMold.JsonValues
import NaturalMold.KeyedTables
import NaturalMold.ConversationTables
import NaturalMold.ConversationRuns
import NaturalMold.ConversationRunInvariants
import NaturalMold.ConversationRunStateMachine
import NaturalMold.ConversationRunQueue
import NaturalMold.ConversationRunQueueInvariants
import NaturalMold.ConversationRunQueueSteps
import NaturalMold.ConversationRunQueueSafety
import NaturalMold.TextSubstitution
import NaturalMold.PythonText
import NaturalMold.GuardrailRules
import NaturalMold.GuardrailDetection
import NaturalMold.GuardrailActions
import NaturalMold.GuardFindingsCache
import NaturalMold.GuardrailTemplates
import NaturalMold.GuardrailPolicy
import NaturalMold.GuardrailPinning
import NaturalMold.PseudonymTokens
import NaturalMold.GuardedPieces
import NaturalMold.Pseudonyms
import NaturalMold.PseudonymInvariants
import NaturalMold.PseudonymChecks
import NaturalMold.PseudonymTagRoundTrip
import NaturalMold.PseudonymNaturalRoundTrip
import NaturalMold.EventBroker
import NaturalMold.EventBrokerDelivery
import NaturalMold.EventBrokerExactDelivery
import NaturalMold.RetriedOperations
import NaturalMold.KeyedDifferences
import NaturalMold.RelationTuples
import NaturalMold.TupleRows
import NaturalMold.TupleProjection
import NaturalMold.TupleMerge
import NaturalMold.GrantProjection
import NaturalMold.GrantChanges
import NaturalMold.GrantStoredProjection
import NaturalMold.Reconciliation
import NaturalMold.ReconciliationRepair
import NaturalMold.GrantConvergence
import NaturalMold.TraceStorage
import NaturalMold.TraceStorageHistory
import NaturalMold.Outbox
import NaturalMold.OutboxBackOff
import NaturalMold.OutboxWorkers
import NaturalMold.OutboxWorkerInvariants
import NaturalMold.OutboxWorkerSteps
import NaturalMold.OutboxConvergence
import NaturalMold.ParentWalks
import NaturalMold.GroupRepresentatives
import NaturalMold.ThreadBranches
import NaturalMold.ThreadBranchesRefinement
import NaturalMold.BranchNumbering
import NaturalMold.Jobs
import NaturalMold.JobAttempts
import NaturalMold.PendingMarkers
import NaturalMold.Histories
import NaturalMold.DelegationRetry
import NaturalMold.DelegationRetryWatermark
import NaturalMold.DelegationRetryRuns
import NaturalMold.LockTables
import NaturalMold.ExecutionLockCursor
import NaturalMold.ExecutionLocks
import NaturalMold.GroupedTotals
import NaturalMold.SpendFlush
import NaturalMold.SpendWriter
import NaturalMold.CronExpressions
import NaturalMold.ScheduleForms
import NaturalMold.RunCapacity
import NaturalMold.RowVersions
import NaturalMold.Approvals
import NaturalMold.ApprovalTransactions
import NaturalMold.ApprovalInvariants
import NaturalMold.ApprovalDecisions
import NaturalMold.CommittedStages
import NaturalMold.ResumeCommands
import NaturalMold.SessionConsents
import NaturalMold.ResumeAdmission
import NaturalMold.InputRespond
import NaturalMold.ResumeRefusals
import NaturalMold.ApprovalRecording
import NaturalMold.WaitingApprovals
import NaturalMold.EmergencyStops
import NaturalMold.OverlappingStops
import NaturalMold.EmergencyStopRuns
import NaturalMold.EmergencyStopSafety
import NaturalMold.HitlInterrupts
import NaturalMold.WaitingCards
import NaturalMold.MemoryIndex
import NaturalMold.MemoryIndexConvergence
import NaturalMold.ConsolidationSchedule
import NaturalMold.ConsolidationProgress
import NaturalMold.MemoryProfiles
import NaturalMold.PinnedLines
import NaturalMold.ProfileAgreement
import NaturalMold.PinRuns
import NaturalMold.MemoryConsolidation
import NaturalMold.MemoryMarks
import NaturalMold.MergedMemories
import NaturalMold.MergeRuns
import NaturalMold.ProposalDecisions
import NaturalMold.ResolvedProposals
import NaturalMold.DecisionRuns
import NaturalMold.MemoryPurge
import NaturalMold.PurgedMemories
import NaturalMold.PendingCalls
import NaturalMold.ApprovalWaiters
import NaturalMold.CarriedWaits
import NaturalMold.WaiterLinks
import NaturalMold.RecordedWaits
import NaturalMold.SettledWaits
import NaturalMold.WaiterSteps
import NaturalMold.WaiterEvents
import NaturalMold.WaiterRuns
import NaturalMold.PosixPaths
import NaturalMold.FileWrites
import NaturalMold.SkillPackages
import NaturalMold.ExtractedMembers
import NaturalMold.ExtractedFolders
import NaturalMold.SkillRevisions
import NaturalMold.SnapshotArchives
import NaturalMold.RestoredRevisions
import NaturalMold.SkillDrafts
import NaturalMold.NormalizedDrafts
import NaturalMold.InstalledDrafts
import NaturalMold.RevisionSnapshots
import NaturalMold.KeptSnapshots
import NaturalMold.RecentKeys
import NaturalMold.RivalEvents
import NaturalMold.PreparedRuns
import NaturalMold.PreparedRunLives
import NaturalMold.SingleUseLeases
import NaturalMold.ChildLaunches
import NaturalMold.LaunchedChildren
import NaturalMold.GroupedMerges
import NaturalMold.ModelCatalog
import NaturalMold.CatalogAnswers
import NaturalMold.StreamResumption
import NaturalMold.Transducers
import NaturalMold.TextDecoding
import NaturalMold.JsonTexts
import NaturalMold.ServerSentEvents
import NaturalMold.ThreadMessageIds
import NaturalMold.ThreadMessages
import NaturalMold.ThreadMessageTurns
import NaturalMold.DecisionCoordinator
import NaturalMold.CoordinatorRuns
import NaturalMold.JavaScriptObjects
import NaturalMold.SensitiveDisplay
import NaturalMold.InterruptToolCalls
import NaturalMold.MergedInterrupts
import NaturalMold.VersionOrders
import NaturalMold.ServerMessageQueue
import NaturalMold.MessageQueueRuns
import NaturalMold.UnattendedApprovals
import NaturalMold.RecallBudgets
import NaturalMold.GreedySelections
import NaturalMold.MemoryRecall
import NaturalMold.OutboxFairness
import NaturalMold.StreamHoldBack
import NaturalMold.KeysetPages
import NaturalMold.GrantExpiry
import NaturalMold.CalendarMonths
import NaturalMold.BillingPeriods
import NaturalMold.SiblingPasts
import NaturalMold.FilesystemPermissions
import NaturalMold.RunSurfaces
import NaturalMold.StoredConditions
import NaturalMold.MergedConditions
import NaturalMold.WrittenExpiries
import NaturalMold.CyclicFirings
import NaturalMold.ScheduleGaps
import NaturalMold.ReopenedSchedules
import NaturalMold.OffloadReferences
import NaturalMold.OffloadProjections
import NaturalMold.OffloadReplays
import NaturalMold.IntervalClusters
import NaturalMold.GuardrailCoverage
import NaturalMold.GuardrailPackMerges
import NaturalMold.BrokerRegistry
import NaturalMold.MarkedReplacements
import NaturalMold.PagedPasses
import NaturalMold.RunTaskRegistry
import NaturalMold.SecretMasking
import NaturalMold.CredentialRotation
import NaturalMold.StableOrders
import NaturalMold.ReorderedInputs
import NaturalMold.InstallationSummaries
import NaturalMold.SummaryAgreement
import NaturalMold.ModelPackBatches
import NaturalMold.NestedValues
import NaturalMold.LeafRewriting
import NaturalMold.CredentialInterpolation
import NaturalMold.ConnectionGuard
