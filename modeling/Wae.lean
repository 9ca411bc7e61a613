import Wae.Context
import Wae.Context.Guards
import Wae.Context.Inherit
import Wae.Io.Announce
import Wae.Io.Answer
import Wae.Io.Apart
import Wae.Io.Arming
import Wae.Io.Cancel
import Wae.Io.Chain
import Wae.Io.ChainLaws
import Wae.Io.Contract
import Wae.Io.Drop
import Wae.Io.Ending
import Wae.Io.Event
import Wae.Io.EventDrop
import Wae.Io.EventSlot
import Wae.Io.EventWakeup
import Wae.Io.Exact
import Wae.Io.Filling
import Wae.Io.Handle
import Wae.Io.OneShot
import Wae.Io.Rearm
import Wae.Io.Release
import Wae.Io.Slice
import Wae.Io.Slot
import Wae.Io.Unwrap
import Wae.Io.Wakeup
import Wae.Io.Whole
import Wae.Macros
import Wae.Memory
import Wae.Net.Answer
import Wae.Net.Buffers
import Wae.Net.GetAddrInfo
import Wae.Net.GetAddrInfoIter
import Wae.Net.HostPort
import Wae.Net.Lists
import Wae.Net.Literal
import Wae.Net.Lookup
import Wae.Net.Tcp.Address
import Wae.Net.Tcp.Closing
import Wae.Net.Tcp.Fallback
import Wae.Net.Tcp.Incoming
import Wae.Net.Tcp.Link
import Wae.Net.Tcp.Resolved
import Wae.Net.Tcp.Roundtrip
import Wae.Net.Tcp.Sharing
import Wae.Net.Tcp.Split
import Wae.Net.ToSocketAddrs
import Wae.Task.BlockOn
import Wae.Task.JoinHandle
import Wae.Task.MayBlock
import Wae.Task.Polls
import Wae.Task.Returns
import Wae.Task.Waiting
import Wae.Task.Yield
import Wae.Text.Utf16
import Wae.Threadpool.Builder
import Wae.Threadpool.Close
import Wae.Threadpool.Deliver
import Wae.Threadpool.Drain
import Wae.Threadpool.Pool
import Wae.Threadpool.Teardown
import Wae.Transition.Lifetime
import Wae.Transition.Loop
import Wae.Transition.Observer
import Wae.Transition.Slot
import Wae.Transition.Tally
