import SyncKit.Lock.Raw
import SyncKit.Quotas

namespace SyncKit

/-- A lock in which writers take tickets and are served in order, and readers stay out while a
writer is queued. After `writeQuota` writes in a row the sleeping readers are let in. -/
structure TicketLock where
  /-- Twice the number of readers inside, plus one while a writer is. -/
  word : Int32 := 0
  requests : Int32 := 0
  /-- The ticket being served. Whoever takes the lock out of turn steps it back by one, and the
  matching release forward again. -/
  completions : Int32 := 0
  /-- Writes since a reader last came in through the blocking path. -/
  granted : Int32 := 0
  spins : Int32 := 0
  readersWaiting : UInt32 := 0
  writeQuota : Int32
  deriving DecidableEq

namespace TicketLock

def writerBit : Int32 := 1

def readerUnit : Int32 := 2

inductive Fault
  | notHeld (misuse : Misuse)
  | readersOverflowed
  | inUse (readers : Int32) (writerInside : Bool) (writersQueued : Int32) (readersWaiting : UInt32)
  | overflow (o : Overflow)
  deriving DecidableEq

def Fault.message : Fault → String
  | .notHeld (.release .read) => "Attempt to release a read lock which is not held"
  | .notHeld (.release .write) => "Attempt to release a write lock which is not held"
  | .notHeld .upgrade => "Attempt to upgrade a read lock which is not held"
  | .notHeld .downgrade => "Attempt to downgrade a write lock which is not held"
  | .readersOverflowed => "Reader count overflowed"
  | .inUse readers writerInside writersQueued readersWaiting =>
    "Attempt to destroy a reader-writer lock which is in use (readers=" ++ toString readers ++
      ", writer_active=" ++ toString writerInside ++
      ", queued_writers=" ++ toString writersQueued ++
      ", waiting_readers=" ++ toString readersWaiting ++ ")"
  | .overflow o => o.message

inductive Wait
  | behindWriters
  | writerInside
  | turn (ticket : Int32)
  | drain (ticket : Int32)
  deriving DecidableEq

instance : Place Wait where
  mode
    | .behindWriters => .read
    | .writerInside => .read
    | .turn _ => .write
    | .drain _ => .write

def ofQuotas (q : Quotas) : TicketLock × List Note :=
  ({ writeQuota := Int32.ofIntClamp q.effectiveWrite.toNat },
    if q.read = 0 then []
    else [.debug ("AtomicRwLock ignores the read quota (" ++ toString q.read ++
      "); readers always yield to queued writers")])

def queued (l : TicketLock) : Bool := l.requests != l.completions

def writerInside (l : TicketLock) : Bool := l.word &&& writerBit != 0

/-- Readers are inside, or have claimed their place while a writer still is. -/
def readersInside (l : TicketLock) : Bool := l.word &&& ~~~writerBit != 0

def wakeReaders (l : TicketLock) : List Signal :=
  if l.readersWaiting > 0 then [.all .read] else []

def wakeWriters (l : TicketLock) : List Signal :=
  if l.queued then [.all .write] else []

def withdraw (l : TicketLock) : TicketLock × List Signal :=
  let left := { l with word := l.word - readerUnit }
  (left, if l.word = readerUnit then left.wakeWriters else [])

/-- A reader claims its place first and looks for a writer afterwards; a claim that meets one is
withdrawn. -/
def tryRead (l : TicketLock) : Step TicketLock Fault Attempt :=
  if l.queued then .done .wouldBlock l
  else
    let claimed := { l with word := l.word + readerUnit }
    if l.writerInside then
      let (left, signals) := claimed.withdraw
      { result := .ok .wouldBlock, lock := left, signals }
    else .done .done claimed

def jumpQueue (l : TicketLock) : TicketLock :=
  { l with word := writerBit, completions := l.completions - 1, granted := l.granted + 1 }

def tryWrite (l : TicketLock) : Step TicketLock Fault Attempt :=
  if l.word = 0 then .done .done l.jumpQueue else .done .wouldBlock l

def unlockRead (l : TicketLock) : Step TicketLock Fault Attempt :=
  let (left, signals) := l.withdraw
  if l.readersInside then { result := .ok .done, lock := left, signals }
  else .fault (.notHeld (.release .read)) left

/-- A writer leaves. Sleeping readers go first when the quota is spent, when no writer is queued,
or when one of them has claimed its place; the last of them wakes the writers. Otherwise the
writers are woken at once. -/
def unlockWrite (l : TicketLock) : Step TicketLock Fault Attempt :=
  let left := { l with word := l.word - writerBit }
  if l.writerInside then
    let left := { left with completions := left.completions + 1 }
    let quotaSpent := decide (left.writeQuota ≤ left.granted)
    if (quotaSpent || !left.queued || left.readersInside) && decide (left.readersWaiting > 0) then
      { result := .ok .done, lock := left, signals := [.all .read],
        notes :=
          if quotaSpent then [.trace "Write quota spent; letting waiting readers in"] else [] }
    else { result := .ok .done, lock := left, signals := left.wakeWriters }
  else .fault (.notHeld (.release .write)) left

def upgrade (l : TicketLock) : Step TicketLock Fault Attempt :=
  if l.word = readerUnit then .done .done l.jumpQueue
  else if !l.writerInside && l.readersInside then .done .wouldBlock l
  else .fault (.notHeld .upgrade) l

/-- The place of a reader is claimed while the writer is still inside, so that nobody comes in
between. -/
def downgrade (l : TicketLock) : Step TicketLock Fault Attempt :=
  let claimed := { l with word := l.word + readerUnit }
  if l.writerInside then
    let left :=
      { claimed with word := claimed.word - writerBit, completions := claimed.completions + 1 }
    { result := .ok .done, lock := left, signals := left.wakeReaders }
  else .fault (.notHeld .downgrade) claimed

def request : Request → TicketLock → Step TicketLock Fault Attempt
  | .tryLock .read => tryRead
  | .tryLock .write => tryWrite
  | .unlock .read => unlockRead
  | .unlock .write => unlockWrite
  | .upgrade => upgrade
  | .downgrade => downgrade

def sleepReader (wait : Wait) (note : String) (l : TicketLock) :
    Step TicketLock Fault (Turn Wait) :=
  match Checked.increment l.readersWaiting with
  | .ok n =>
    { result := .ok (.asleep wait), lock := { l with readersWaiting := n }, notes := [.trace note] }
  | .error o => .fault (.overflow o) l

/-- A reader that has claimed its place waits until no writer is inside. Getting in ends a
sequence of writes. -/
def awaitWriter (l : TicketLock) : Step TicketLock Fault (Turn Wait) :=
  if l.writerInside then l.sleepReader .writerInside "Reader waiting for the active writer"
  else .done .acquired { l with granted := 0 }

def claimRead (l : TicketLock) : Step TicketLock Fault (Turn Wait) :=
  let claimed := { l with word := l.word + readerUnit }
  if l.word < 0 then .fault .readersOverflowed claimed else claimed.awaitWriter

def awaitDrain (ticket : Int32) (l : TicketLock) : Step TicketLock Fault (Turn Wait) :=
  if l.word = 0 then
    .done .acquired { l with word := writerBit, granted := l.granted + 1 }
  else
    { result := .ok (.asleep (.drain ticket)), lock := l,
      notes := [.trace "Writer waiting for readers to drain"] }

def awaitTurn (ticket : Int32) (l : TicketLock) : Step TicketLock Fault (Turn Wait) :=
  if l.completions = ticket then l.awaitDrain ticket
  else
    { result := .ok (.asleep (.turn ticket)), lock := l,
      notes := [.trace "Writer waiting for its turn"] }

def enter : Mode → TicketLock → Step TicketLock Fault (Turn Wait)
  | .read, l =>
    if l.queued then l.sleepReader .behindWriters "Reader waiting behind queued writers"
    else l.claimRead
  | .write, l => { l with requests := l.requests + 1 }.awaitTurn l.requests

def wakeReader (l : TicketLock) (next : TicketLock → Step TicketLock Fault (Turn Wait)) :
    Step TicketLock Fault (Turn Wait) :=
  match Checked.decrement l.readersWaiting with
  | .ok n => next { l with readersWaiting := n }
  | .error o => .fault (.overflow o) l

/-- A reader woken from behind the writers does not look at the queue again: it was let in. -/
def resume : Wait → TicketLock → Step TicketLock Fault (Turn Wait)
  | .behindWriters, l => l.wakeReader claimRead
  | .writerInside, l => l.wakeReader awaitWriter
  | .turn ticket, l => l.awaitTurn ticket
  | .drain ticket, l => l.awaitDrain ticket

def destroy (l : TicketLock) : Except Fault Unit :=
  if l.word = 0 ∧ l.queued = false ∧ l.readersWaiting = 0 then .ok ()
  else .error (.inUse (l.word / readerUnit) l.writerInside (l.requests - l.completions)
    l.readersWaiting)

instance : RawLock TicketLock Wait Fault where
  request := request
  enter := enter
  resume := resume
  spins := spins
  withSpins l estimate := { l with spins := estimate }
  destroy := destroy
  ofOverflow := .overflow
  message := Fault.message

end TicketLock

end SyncKit
