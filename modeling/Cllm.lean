import Cllm.Api.Answers
import Cllm.Api.Bounds
import Cllm.Api.Prompt
import Cllm.Api.Stateless
import Cllm.Heap.FreeBytes
import Cllm.Heap.Freed
import Cllm.Http.Acceptance
import Cllm.Http.Order
import Cllm.Http.Stores
import Cllm.Json.Exponent
import Cllm.Json.FloatText
import Cllm.Json.Skip
import Cllm.Json.Stores
import Cllm.Kernel.Handler
import Cllm.Kernel.LogLine
import Cllm.Libc.Append
import Cllm.Llm.Checksum
import Cllm.Llm.Generate
import Cllm.Llm.Pieces
import Cllm.Llm.Session
import Cllm.Network.ConfigWrites
import Cllm.Network.Enumeration
import Cllm.Network.Eviction
import Cllm.Tcp.Acking
import Cllm.Tcp.Exhaustion
import Cllm.Tcp.Refusal
import Cllm.Unikernel.Addressing
import Cllm.Unikernel.PowerOn
import Cllm.Unikernel.Progress
import Cllm.Unikernel.SelfTests
import Cllm.Unikernel.Service
import Cllm.Unikernel.Terminal
