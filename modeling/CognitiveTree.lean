import CognitiveTree.Benchmark.Archives
import CognitiveTree.Benchmark.LlmTasks
import CognitiveTree.Benchmark.Scaling
import CognitiveTree.Core.Alike
import CognitiveTree.Feedback.Assertions
import CognitiveTree.Feedback.Composite
import CognitiveTree.Feedback.Notes
import CognitiveTree.Feedback.Rewards
import CognitiveTree.Llm.CacheLedger
import CognitiveTree.Llm.CacheReference
import CognitiveTree.Llm.Generator
import CognitiveTree.Llm.Numbering
import CognitiveTree.Llm.Retries
import CognitiveTree.Observability.Accounts
import CognitiveTree.Observability.Calls
import CognitiveTree.Observability.Spending
import CognitiveTree.Persistence.Depth
import CognitiveTree.Persistence.Replay
import CognitiveTree.Persistence.Restoration
import CognitiveTree.Sandbox.Backends
import CognitiveTree.Sandbox.Capture
import CognitiveTree.Sandbox.DockerExecutor
import CognitiveTree.Search.Completeness
import CognitiveTree.Search.Descent
import CognitiveTree.Search.EventSink
import CognitiveTree.Search.Parallel
import CognitiveTree.Session.Archiving
import CognitiveTree.Session.LlmRequests
import CognitiveTree.Session.Replaying
import CognitiveTree.Ui.Events
import CognitiveTree.Ui.Server
