import QueryPlan.Enumeration.Script
import QueryPlan.Error.Json
import QueryPlan.Metrics.Json
import QueryPlan.Session.Setup
import QueryPlan.Proofs.Cache.Arena
import QueryPlan.Proofs.Cache.Capacity
import QueryPlan.Proofs.Cache.LeastRecent
import QueryPlan.Proofs.Cache.Programs
import QueryPlan.Proofs.Compile.Acceptance
import QueryPlan.Proofs.Compile.Comparisons
import QueryPlan.Proofs.Compile.Outputs
import QueryPlan.Proofs.Compile.Predicates
import QueryPlan.Proofs.Compile.Priority
import QueryPlan.Proofs.Compile.Projections
import QueryPlan.Proofs.Compile.Refusals
import QueryPlan.Proofs.Enumeration.Lifetime
import QueryPlan.Proofs.Expr.Erasure
import QueryPlan.Proofs.Expr.Search
import QueryPlan.Proofs.Plan.Binding
import QueryPlan.Proofs.Semantics.Simulation
import QueryPlan.Proofs.Session.Accounts
import QueryPlan.Proofs.Session.Registries
import QueryPlan.Proofs.Session.Transparency
import QueryPlan.Proofs.Sql.Legibility
