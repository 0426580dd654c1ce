import AiCloud.NodeLease.Timestamps
import AiCloud.Tasks.Lifecycle
import AiCloud.Activity.Retries
import AiCloud.ControlPlane.Admission
import AiCloud.ControlPlane.Release
import AiCloud.ControlPlane.Retries
import AiCloud.Outbox.Counters
import AiCloud.Outbox.Delivery
import AiCloud.Outbox.Reports
import AiCloud.ControlPlane.RouteReplay
import AiCloud.Workflow.Steps
import AiCloud.Routing.Agreement
import AiCloud.Routing.Admission
import AiCloud.Cost.Currency
import AiCloud.ToolGateway.Mediation
import AiCloud.TenantRepo.Noninterference
import AiCloud.HttpApi.Pagination
import AiCloud.HttpApi.ScopeGuard
import AiCloud.Authn.Acceptance
import AiCloud.GitOps.Rollback
import AiCloud.Budget.Selection
import AiCloud.Budget.Settlement
import AiCloud.Activity.Registration
import AiCloud.Migrations.Run
import AiCloud.OpenAI.Provider
import AiCloud.GitOps.RoundTrip
