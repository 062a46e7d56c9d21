import Irip.Ai.AskExecutor
import Irip.Artifacts.Consistency
import Irip.Audit.Redaction
import Irip.Auth.Families
import Irip.Backup.Validation
import Irip.Collaboration.Membership
import Irip.Common.Listings
import Irip.Common.RateLimiter
import Irip.Components.Versions
import Irip.Conclusions.Assembly
import Irip.Conclusions.Candidates
import Irip.Conclusions.Labels
import Irip.Conclusions.Revisions
import Irip.Connectors.FileConnector
import Irip.Converters.Closed
import Irip.Converters.LlmResponse
import Irip.Converters.TgaPrint
import Irip.Converters.XrdFields
import Irip.Departments.Hierarchy
import Irip.Evidence.Commitment
import Irip.Execution.Chunking
import Irip.Execution.Dependencies
import Irip.Execution.Eligibility
import Irip.Execution.Scheduler
import Irip.Facts.DataIndex
import Irip.Facts.Particles
import Irip.Flow.Cancel
import Irip.Flow.Protected
import Irip.Flow.Record
import Irip.Flow.Replay
import Irip.Http.ResponseSize
import Irip.Jobs.Acceptance
import Irip.Jobs.Backoff
import Irip.Jobs.Cancel
import Irip.Jobs.Delivery
import Irip.Jobs.DeptConcurrency
import Irip.Jobs.Terminal
import Irip.Lineage.Traversal
import Irip.Lineage.Writer
import Irip.Models.Applicability
import Irip.Models.Execution
import Irip.Models.Lifecycle
import Irip.Models.Onnx
import Irip.Numeric.Closed
import Irip.Numeric.Conditions
import Irip.Numeric.Results
import Irip.Numeric.Statistics
import Irip.Numeric.UnitsSound
import Irip.Numeric.Variables
import Irip.Parameters.Approval
import Irip.Parameters.ConditionGrammar
import Irip.Parameters.ConditionOrder
import Irip.Parameters.Lifecycle
import Irip.Provenance.Graph
import Irip.Provenance.Outputs
import Irip.Provenance.RobustEstimator
import Irip.Publication.ContentHash
import Irip.Publication.History
import Irip.Publication.Reuse
import Irip.Research.Agreement
import Irip.Research.Routable
import Irip.Research.Staleness
import Irip.Research.Submissions
import Irip.Research.WorkItems
import Irip.Secrets.Rotation
import Irip.Timeline.Idempotency
import Irip.Transform.Locations
import Irip.Transform.SteadySegments
