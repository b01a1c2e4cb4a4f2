import AccessPolicy.Change.Codec
import AccessPolicy.Cluster
import AccessPolicy.Engine.Codec
import AccessPolicy.Principal
import AccessPolicy.Settings.Codec
import AccessPolicy.Proofs.Bus.History
import AccessPolicy.Proofs.Change.Codec
import AccessPolicy.Proofs.Cluster.Outage
import AccessPolicy.Proofs.DecisionCache.Invalidation
import AccessPolicy.Proofs.Engine.Abreast
import AccessPolicy.Proofs.Engine.Accounts
import AccessPolicy.Proofs.Engine.Agreement
import AccessPolicy.Proofs.Engine.Approval
import AccessPolicy.Proofs.Engine.Batched
import AccessPolicy.Proofs.Engine.Deadline
import AccessPolicy.Proofs.Engine.Enriched
import AccessPolicy.Proofs.Engine.FailsClosed
import AccessPolicy.Proofs.Engine.Isolation
import AccessPolicy.Proofs.Engine.Outliving
import AccessPolicy.Proofs.Engine.Readings
import AccessPolicy.Proofs.Engine.Regular
import AccessPolicy.Proofs.Engine.Renewal
import AccessPolicy.Proofs.Engine.Serviceable
import AccessPolicy.Proofs.Engine.Summary
import AccessPolicy.Proofs.Engine.Sweep
import AccessPolicy.Proofs.Engine.Usage
import AccessPolicy.Proofs.Evaluator.DenyOverrides
import AccessPolicy.Proofs.Evaluator.Groups
import AccessPolicy.Proofs.Evaluator.Recording
import AccessPolicy.Proofs.Glob.Concatenation
import AccessPolicy.Proofs.Glob.Search
import AccessPolicy.Proofs.ObjectPattern
import AccessPolicy.Proofs.Rule.Conflicts
import AccessPolicy.Proofs.Rule.Flip
import AccessPolicy.Proofs.RuleStore.History
