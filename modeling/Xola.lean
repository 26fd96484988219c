import Xola.Interaction.Wp
import Xola.LlmSurface.Verify.ParserContract
import Xola.LlmSurface.Verify.ReasonContract
import Xola.LlmSurface.Verify.Retry
import Xola.LlmSurface.Verify.ServedRuns
import Xola.LlmSurface.Verify.SummarizeWire
import Xola.LlmSurface.Verify.ToolNames
import Xola.Memory.Verify.EvictionSuffix
import Xola.Memory.Verify.LongTermStore
import Xola.Planning.Verify.Branches
import Xola.Planning.Verify.Categories
import Xola.Planning.Verify.Deadlines
import Xola.Planning.Verify.Observations
import Xola.Planning.Verify.Runtime
import Xola.Planning.Verify.SharedLog
import Xola.Planning.Verify.SummarizeFirst
import Xola.Reliability.Verify.CallTexts
import Xola.Reliability.Verify.FailureCount
import Xola.Reliability.Verify.Races
import Xola.Reliability.Verify.SlidingWindow
import Xola.Reliability.Verify.Stragglers
import Xola.Tools.Verify.Chunking
import Xola.Tools.Verify.FailureRate
import Xola.Tools.Verify.Gating
import Xola.Tools.Verify.InputContract
import Xola.Tools.Verify.Overlap
import Xola.Tools.Verify.SequentialCalls
import Xola.Tools.Verify.SharedDaemon
import Xola.Tools.Verify.ValidatedNumbers
