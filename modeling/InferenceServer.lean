import InferenceServer.CircuitBreaker.History
import InferenceServer.CircuitBreaker.StatusRace
import InferenceServer.Batcher.Probe
import InferenceServer.Batcher.Recovery
import InferenceServer.Batcher.Shutdown
import InferenceServer.Server.Integrity
import InferenceServer.Batcher.Permits
import InferenceServer.Server.Status
import InferenceServer.Batcher.RunBatch
import InferenceServer.Batcher.Window
import InferenceServer.Server.Accounting
import InferenceServer.Server.FailOpen
import InferenceServer.Python.Text
import InferenceServer.Startup
import InferenceServer.Numerics.Array2
import InferenceServer.Numerics.Softmax
import InferenceServer.Onnx
import InferenceServer.Cache.Client
import InferenceServer.Machine.Progress
import InferenceServer.Server.Liveness
import InferenceServer.Batcher.Outage
import InferenceServer.Model
import InferenceServer.Server.Unbatched
import InferenceServer.Server.Redis
import InferenceServer.Server.Freshness
import InferenceServer.Server.DeadModel
import InferenceServer.Machine.LazyLoad
import InferenceServer.Loading
import InferenceServer.Machine.Stuttering
import InferenceServer.CircuitBreaker.Polling
import InferenceServer.Server.Health
import InferenceServer.Batcher.Metrics
import InferenceServer.Batcher.Rejection
import InferenceServer.Batcher.Latency
import InferenceServer.Batcher.Utilization
import InferenceServer.Server.Restart
import InferenceServer.Server.Latency
import InferenceServer.Server.Shutdown
