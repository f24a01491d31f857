import SyncKit.Log
import SyncKit.Overflow
import SyncKit.Quotas
import SyncKit.Spin
import SyncKit.Lock.Mode
import SyncKit.Lock.Raw
import SyncKit.Lock.Ticket
import SyncKit.Lock.Quota
import SyncKit.Lock.Contended
import SyncKit.Lock.Guards
import SyncKit.Lock.Session
import SyncKit.ShareCount
import SyncKit.IdentCell
import SyncKit.Queue.Link
import SyncKit.Queue.Chain
import SyncKit.Queue.Store
import SyncKit.Queue.Session
import SyncKit.Notifier.Basic
import SyncKit.Notifier.Notify
import SyncKit.Notifier.Session
import SyncKit.Proofs.Lock.Run
import SyncKit.Proofs.Lock.Waking
import SyncKit.Proofs.Lock.Grants
import SyncKit.Proofs.Lock.Release
import SyncKit.Proofs.Lock.Admission
import SyncKit.Proofs.Word
import SyncKit.Proofs.Ticket.Balanced
import SyncKit.Proofs.Ticket.Waking
import SyncKit.Proofs.Ticket.Handover
import SyncKit.Proofs.Ticket.Serving
import SyncKit.Proofs.Ticket.Calling
import SyncKit.Proofs.Ticket.Peace
import SyncKit.Proofs.Ticket.FastPath
import SyncKit.Proofs.Ticket.Wakeup
import SyncKit.Proofs.Ticket.Misuse
import SyncKit.Proofs.Ticket.Passage
import SyncKit.Proofs.Ticket.Overtaking
import SyncKit.Proofs.Ticket.Streak
import SyncKit.Proofs.Ticket.Line
import SyncKit.Proofs.Ticket.Preference
import SyncKit.Proofs.Ticket.Succession
import SyncKit.Proofs.Queue.Segment
import SyncKit.Proofs.Queue.Threaded
import SyncKit.Proofs.Queue.Lists
import SyncKit.Proofs.Queue.Refinement
import SyncKit.Proofs.Queue.Integrity
import SyncKit.Proofs.Quota.Tallied
import SyncKit.Proofs.Quota.Bidding
import SyncKit.Proofs.Quota.Handover
import SyncKit.Proofs.Quota.Serving
import SyncKit.Proofs.Quota.Steady
import SyncKit.Proofs.Quota.Conduct
import SyncKit.Proofs.Quota.Wakeup
import SyncKit.Proofs.Quota.Turnover
import SyncKit.Proofs.Lock.Verdict
import SyncKit.Proofs.Agreement
import SyncKit.Proofs.Quota.Alternation
import SyncKit.Proofs.Quota.Capacity
import SyncKit.Proofs.Shares.Count
import SyncKit.Proofs.Shares.LastShare
import SyncKit.Proofs.Shares.Ownership
import SyncKit.Proofs.Shares.Ideal
import SyncKit.Proofs.Guards
import SyncKit.Proofs.Quota.Readable
import SyncKit.Proofs.Quota.Succession
import SyncKit.Proofs.Notifier.Accounting
import SyncKit.Proofs.Refusals
import SyncKit.Proofs.RoundTrip
import SyncKit.Proofs.Quota.Tenure
import SyncKit.Proofs.Ticket.ReaderCount
import SyncKit.Proofs.Ticket.ReaderOverflow
import SyncKit.Proofs.Notifier.Reentry
import SyncKit.Proofs.Queue.Determined
import SyncKit.Proofs.Queue.Refused
import SyncKit.Proofs.Queue.Unlinking
import SyncKit.Proofs.Queue.Apart
import SyncKit.Proofs.Queue.Teardown
import SyncKit.Proofs.Adaptive
import SyncKit.Proofs.Lock.Overlap
import SyncKit.Proofs.Workable
