import BoostRedis.Adapter.Associative
import BoostRedis.Adapter.ConsumeOne
import BoostRedis.Adapter.Containers
import BoostRedis.Adapter.Conversion
import BoostRedis.Adapter.Generic
import BoostRedis.Adapter.Impl
import BoostRedis.Adapter.Pipeline
import BoostRedis.Adapter.Result
import BoostRedis.Adapter.Reuse
import BoostRedis.Adapter.Transaction
import BoostRedis.Adapter.Tuple
import BoostRedis.Adapter.Types
import BoostRedis.Adapter.Wrapper
import BoostRedis.General.Assoc
import BoostRedis.General.Channel
import BoostRedis.General.Counter
import BoostRedis.General.Decimal
import BoostRedis.General.ParallelGroup
import BoostRedis.General.Posting
import BoostRedis.General.Preorder
import BoostRedis.General.Run
import BoostRedis.General.Separator
import BoostRedis.Handshake
import BoostRedis.Multiplexer.Answers
import BoostRedis.Multiplexer.Attribution
import BoostRedis.Multiplexer.Basic
import BoostRedis.Multiplexer.Connection
import BoostRedis.Multiplexer.Delivery
import BoostRedis.Multiplexer.Destination
import BoostRedis.Multiplexer.Entries
import BoostRedis.Multiplexer.Execution
import BoostRedis.Multiplexer.Indices
import BoostRedis.Multiplexer.Ledger
import BoostRedis.Multiplexer.Loss
import BoostRedis.Multiplexer.Notification
import BoostRedis.Multiplexer.Order
import BoostRedis.Multiplexer.Priority
import BoostRedis.Multiplexer.Queue
import BoostRedis.Multiplexer.ReadBuffer
import BoostRedis.Multiplexer.Reader
import BoostRedis.Multiplexer.Reading
import BoostRedis.Multiplexer.Resending
import BoostRedis.Multiplexer.Response
import BoostRedis.Multiplexer.Retry
import BoostRedis.Multiplexer.Staging
import BoostRedis.Multiplexer.Usage
import BoostRedis.Multiplexer.WakeUp
import BoostRedis.Multiplexer.Writing
import BoostRedis.Request
import BoostRedis.Request.Ranges
import BoostRedis.Request.Wire
import BoostRedis.Resp3.Canonical
import BoostRedis.Resp3.Consume
import BoostRedis.Resp3.Deserialize
import BoostRedis.Resp3.Framing
import BoostRedis.Resp3.Loop
import BoostRedis.Resp3.Nesting
import BoostRedis.Resp3.Parser
import BoostRedis.Resp3.Progress
import BoostRedis.Resp3.Resumption
import BoostRedis.Resp3.RoundTrip
import BoostRedis.Resp3.Shape
import BoostRedis.Resp3.Stream
import BoostRedis.Resp3.Streaming
import BoostRedis.Resp3.Type
import BoostRedis.Resp3.Value
import BoostRedis.System.Exchange
import BoostRedis.System.Health
import BoostRedis.System.Receive
import BoostRedis.System.Reconnection
import BoostRedis.System.Results
import BoostRedis.System.Serving
import BoostRedis.System.Supervision
