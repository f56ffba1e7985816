import BittyAi.Control.CrossingTheorems
import BittyAi.Endpoint.ToolDispatchTheorems
import BittyAi.Mcp.AttributionTheorems
import BittyAi.Mcp.FrameTheorems
import BittyAi.Mcp.OutgoingTheorems
import BittyAi.Mcp.PanicTheorems
import BittyAi.Mcp.ToolImportTheorems
import BittyAi.Runtime.ArtifactHistoryTheorems
import BittyAi.Runtime.BreakpointTheorems
import BittyAi.Runtime.CompactionChainTheorems
import BittyAi.Runtime.ContextInfluenceTheorems
import BittyAi.Runtime.ProjectPath
import BittyAi.Runtime.PromptTheorems
import BittyAi.Runtime.ReconcileTheorems
import BittyAi.Runtime.Secret
import BittyAi.Runtime.SessionAdoption
import BittyAi.Runtime.SseTheorems
import BittyAi.Runtime.TurnBudgetTheorems
import BittyAi.Runtime.TurnOutcomeTheorems
import BittyAi.Runtime.TurnSafetyTheorems
import BittyAi.Session.ReadYourWriteTheorems
import BittyAi.Session.ReflogMomentTheorems
import BittyAi.Slice.ActionFenceTheorems
import BittyAi.Slice.CompactionDeletionTheorems
import BittyAi.Slice.ContextCompilerTheorems
import BittyAi.Slice.FragmentTransportTheorems
import BittyAi.Slice.GarbageCollectionTheorems
import BittyAi.Slice.LocalProviderTheorems
import BittyAi.Slice.MergeCommitTheorems
import BittyAi.Slice.PendingHostTheorems
import BittyAi.Slice.TaskDagReadinessTheorems
