import Blip.Wire
import Blip.Compression
import Blip.Varint
import Blip.Payload
import Blip.Sender
import Blip.FrameRun
import Blip.Streaming
import Blip.Lifecycle
import Blip.Properties
import Blip.Progress
import Blip.Multiplex
import Blip.Dispatch
import Blip.Batching
import Blip.Loopback
import Blip.LoopbackRuns
import Blip.LoopbackDelivery
import Blip.LoopbackOrder
import Blip.LoopbackLatency
import Blip.SendBuffer
import Blip.SendBufferRuns
import Blip.LoopbackClose
import Blip.Async
import Blip.AsyncRuns
import Blip.MailboxRuns
import Blip.BatcherMailbox
import Blip.Manifest
import Blip.MailboxManifest
