import ApprovalFlow.Actor
import ApprovalFlow.Calendar
import ApprovalFlow.Clock
import ApprovalFlow.Engine
import ApprovalFlow.Engine.Approval
import ApprovalFlow.Engine.Events
import ApprovalFlow.Engine.Graph
import ApprovalFlow.Engine.Hooks
import ApprovalFlow.Engine.Management
import ApprovalFlow.Engine.Queues
import ApprovalFlow.Engine.Steps
import ApprovalFlow.Engine.Traversal
import ApprovalFlow.Entries
import ApprovalFlow.Event
import ApprovalFlow.Failure
import ApprovalFlow.Json.Reader
import ApprovalFlow.Json.Writer
import ApprovalFlow.Lifecycle
import ApprovalFlow.Limits
import ApprovalFlow.Logging.Loggers
import ApprovalFlow.Logging.Record
import ApprovalFlow.Logging.Routing
import ApprovalFlow.Main
import ApprovalFlow.Number.Decimal
import ApprovalFlow.Number.Dyadic
import ApprovalFlow.Outcome
import ApprovalFlow.PageChange
import ApprovalFlow.PageChange.Options
import ApprovalFlow.Proofs.Aborting
import ApprovalFlow.Proofs.Action
import ApprovalFlow.Proofs.Activity
import ApprovalFlow.Proofs.AcyclicWalk
import ApprovalFlow.Proofs.Agreement
import ApprovalFlow.Proofs.AnswerProgress
import ApprovalFlow.Proofs.AnsweredAside
import ApprovalFlow.Proofs.Approval
import ApprovalFlow.Proofs.ApprovalGraph
import ApprovalFlow.Proofs.BreadthFirst
import ApprovalFlow.Proofs.CatalogGrowth
import ApprovalFlow.Proofs.Coherence
import ApprovalFlow.Proofs.CommandLine
import ApprovalFlow.Proofs.ContractBreaches
import ApprovalFlow.Proofs.DecisionGate
import ApprovalFlow.Proofs.Delivery
import ApprovalFlow.Proofs.DisjointWorkflows
import ApprovalFlow.Proofs.DisplacedWorkflows
import ApprovalFlow.Proofs.Drivable
import ApprovalFlow.Proofs.Driving
import ApprovalFlow.Proofs.DrivingInvariants
import ApprovalFlow.Proofs.EndedWorkflows
import ApprovalFlow.Proofs.EngineLikeness
import ApprovalFlow.Proofs.EventHistory
import ApprovalFlow.Proofs.Finality
import ApprovalFlow.Proofs.Footprint
import ApprovalFlow.Proofs.FootprintOperations
import ApprovalFlow.Proofs.GlobalRelations
import ApprovalFlow.Proofs.HookCalls
import ApprovalFlow.Proofs.InStep
import ApprovalFlow.Proofs.Independence
import ApprovalFlow.Proofs.ListenerStreams
import ApprovalFlow.Proofs.LocalRelations
import ApprovalFlow.Proofs.LogLine
import ApprovalFlow.Proofs.LoggerTree
import ApprovalFlow.Proofs.ManagedChanges
import ApprovalFlow.Proofs.Management
import ApprovalFlow.Proofs.ManagerConsistency
import ApprovalFlow.Proofs.ManagerContents
import ApprovalFlow.Proofs.ManagerInvariants
import ApprovalFlow.Proofs.Merging
import ApprovalFlow.Proofs.NotPresenting
import ApprovalFlow.Proofs.Numerals
import ApprovalFlow.Proofs.ObservationLogs
import ApprovalFlow.Proofs.ObservingListeners
import ApprovalFlow.Proofs.OngoingTraversal
import ApprovalFlow.Proofs.Operation
import ApprovalFlow.Proofs.OperationTrails
import ApprovalFlow.Proofs.OutcomeInterchange
import ApprovalFlow.Proofs.OutcomeKeys
import ApprovalFlow.Proofs.Precedence
import ApprovalFlow.Proofs.PresentedOnce
import ApprovalFlow.Proofs.Presenting
import ApprovalFlow.Proofs.Publication
import ApprovalFlow.Proofs.QueueEvents
import ApprovalFlow.Proofs.QueueReplay
import ApprovalFlow.Proofs.Reachable
import ApprovalFlow.Proofs.Recordability
import ApprovalFlow.Proofs.Recording
import ApprovalFlow.Proofs.Records
import ApprovalFlow.Proofs.ReentrantHooks
import ApprovalFlow.Proofs.Registration
import ApprovalFlow.Proofs.RegistrationLog
import ApprovalFlow.Proofs.Registry
import ApprovalFlow.Proofs.Relinking
import ApprovalFlow.Proofs.Retrying
import ApprovalFlow.Proofs.RoundTrip
import ApprovalFlow.Proofs.Sequence
import ApprovalFlow.Proofs.State
import ApprovalFlow.Proofs.StepBinding
import ApprovalFlow.Proofs.StepLife
import ApprovalFlow.Proofs.StepTimes
import ApprovalFlow.Proofs.StepTrails
import ApprovalFlow.Proofs.Steps
import ApprovalFlow.Proofs.Submission
import ApprovalFlow.Proofs.Transparency
import ApprovalFlow.Proofs.TraversalLoop
import ApprovalFlow.Proofs.Turns
import ApprovalFlow.Proofs.UndisturbedRuns
import ApprovalFlow.Proofs.Unstarted
import ApprovalFlow.Proofs.Waiting
import ApprovalFlow.Proofs.Walk
import ApprovalFlow.Proofs.Work
import ApprovalFlow.Proofs.WorkflowEffects
import ApprovalFlow.Proofs.WorkflowTimes
import ApprovalFlow.Record
import ApprovalFlow.Record.Document
import ApprovalFlow.Scenario.Command
import ApprovalFlow.Scenario.Perform
import ApprovalFlow.Scenario.Session
import ApprovalFlow.Scenario.State
import ApprovalFlow.Scenario.View
import ApprovalFlow.Settings
import ApprovalFlow.Settings.Dotenv
import ApprovalFlow.Settings.Files
import ApprovalFlow.Settings.Library
import ApprovalFlow.Settings.Manner
import ApprovalFlow.Settings.Nested
import ApprovalFlow.Settings.Overlay
import ApprovalFlow.Settings.Problem
import ApprovalFlow.Settings.Reading
import ApprovalFlow.Settings.Sources
import ApprovalFlow.Settings.Variables
import ApprovalFlow.Step
import ApprovalFlow.Template
import ApprovalFlow.Text.Blank
import ApprovalFlow.Text.Casing
import ApprovalFlow.Text.Digits
import ApprovalFlow.Text.Encoding
import ApprovalFlow.Text.Lowercase
import ApprovalFlow.Text.Printable
import ApprovalFlow.Text.Quoted
import ApprovalFlow.Text.Uppercase
import ApprovalFlow.Value
import ApprovalFlow.Workflow
