import RunnerKit.Queue.EndsOnce
import RunnerKit.Queue.Fifo
import RunnerKit.Queue.DrainReturns
import RunnerKit.Queue.Timing
import RunnerKit.Queue.Gated
import RunnerKit.Toolkit.ClaimStop
import RunnerKit.Toolkit.DrainReport
import RunnerKit.RunnerTransport.LiveOrders
import RunnerKit.Threads.HandleOrder
import RunnerKit.EndWait.Decided
import RunnerKit.InboxPort.Complete
import RunnerKit.Toolkit.OneTerminal
import RunnerKit.Kit.LoopKept
import RunnerKit.InboxPort.MarkedOnce
import RunnerKit.RunnerTransport.CancelCalls
import RunnerKit.RunnerTransport.FeedDrops
import RunnerKit.RunnerTransport.ModeOrder
import RunnerKit.RunnerTransport.Outcomes
import RunnerKit.RunnerTransport.OutcomesKept
import RunnerKit.Client.Claim
import RunnerKit.Toolkit.CancelOrders
import RunnerKit.Toolkit.ClaimIds
import RunnerKit.Toolkit.Dispose
import RunnerKit.Toolkit.DisposedOnce
import RunnerKit.Toolkit.HookCalls
import RunnerKit.Toolkit.OrdersReach
import RunnerKit.Arrivals.BadItems
import RunnerKit.InboxPort.Chains
import RunnerKit.InboxPort.Convert
import RunnerKit.InboxPort.FailedListing
import RunnerKit.Kit.CancelFeed
import RunnerKit.Kit.OrdersKept
import RunnerKit.Kit.PresenceKept
import RunnerKit.Book.Making
import RunnerKit.Threads.Delivery
import RunnerKit.Threads.DeliveryKept
import RunnerKit.Threads.DroppedUnsent
import RunnerKit.Threads.EntryWaits
import RunnerKit.Threads.Recovery
import RunnerKit.Toolkit.Instances
import RunnerKit.Toolkit.SavedState
import RunnerKit.Threads.CompletedFold
import RunnerKit.Connection.Reply
import RunnerKit.Kit.Backoff
import RunnerKit.Queue.Attempts
import RunnerKit.Queue.AttemptsKept
import RunnerKit.Toolkit.Arrival
import RunnerKit.Toolkit.ArrivalKept
import RunnerKit.Threads.Keepalives
import RunnerKit.Arrivals.Feed
import RunnerKit.Arrivals.FeedGapless
import RunnerKit.AsNode.Instance
import RunnerKit.AsNode.InstanceKept
import RunnerKit.AsTool.Call
import RunnerKit.AsTool.CallKept
import RunnerKit.Book.Callers
import RunnerKit.Book.CallersKept
import RunnerKit.Threads.DeliveryOrder
import RunnerKit.Threads.Streams
