import RalphVault.Store.Publication
import RalphVault.Handoff.Budget
import RalphVault.PromptCache.Reuse
import RalphVault.Plans.Rebuild
import RalphVault.Memory.Isolation
import RalphVault.Memory.Promotion
import RalphVault.Memory.Rollback
import RalphVault.Store.Paths
import RalphVault.Advisor.Gates
import RalphVault.Advisor.Sensitivity
import RalphVault.Advisor.Consultations
import RalphVault.Advisor.PacketBudget
import RalphVault.Store.ReadBack
import RalphVault.Store.Reader
import RalphVault.Maintenance.Retention
import RalphVault.Maintenance.Runner
import RalphVault.Stop.Continuations
import RalphVault.Stop.Durability
import RalphVault.Stop.Gates
import RalphVault.PostTool.Claims
import RalphVault.SessionStart.Clear
import RalphVault.Advisor.Requests
import RalphVault.HookGraph.Bundle
import RalphVault.HookGraph.Suppression
import RalphVault.AutoResearch.Freshness
import RalphVault.Security.LocalGrant
import RalphVault.Security.SfwGuard
import RalphVault.Archive.Recovery
import RalphVault.PostTool.CostLedger
import RalphVault.Observability.Events
import RalphVault.Setup.SkillCuration
import RalphVault.AutoResearch.Baseline
import RalphVault.LineGuard.ChangedPaths
import RalphVault.Plans.ImplementationContext
import RalphVault.Vault.Graduation
import RalphVault.Plans.UnsafeHtml
import RalphVault.Maintenance.PruneConfig
import RalphVault.Context.Authority
import RalphVault.PostTool.MeasuredOutput
import RalphVault.Memory.DreamCandidates
import RalphVault.Security.PatchGrant
import RalphVault.Memory.ClaudeImport
import RalphVault.Vault.LearningEvents
