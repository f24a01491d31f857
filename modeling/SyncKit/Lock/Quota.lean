import SyncKit.Lock.Raw
import SyncKit.Quotas

namespace SyncKit

/-- A lock that alternates between modes: while the other mode waits, it makes at most a quota of
grants in one mode. -/
structure QuotaLock where
  /-- The mode of the last grant, or of the one about to be made. -/
  mode : Option Mode := none
  active : UInt32 := 0
  /-- Grants since the lock last switched modes. -/
  granted : UInt32 := 0
  readersWaiting : UInt32 := 0
  writersWaiting : UInt32 := 0
  /-- The mode to return to when an upgraded or downgraded hold ends. -/
  returnTo : Option Mode := none
  spins : Int32 := 0
  readQuota : UInt32
  writeQuota : UInt32
  deriving DecidableEq

namespace QuotaLock

structure Holding where
  mode : Option Mode
  active : UInt32
  returnTo : Option Mode
  deriving DecidableEq

def Holding.describe (h : Holding) : String :=
  "mode=" ++ Mode.describe? h.mode ++ " active=" ++ toString h.active ++
    " original=" ++ Mode.describe? h.returnTo

inductive Fault
  | notHeld (misuse : Misuse) (holding : Holding)
  | inUse (holding : Holding)
  | heldWithoutMode
  | refusedWhileWaiting
  | overflow (o : Overflow)
  deriving DecidableEq

def Fault.message : Fault → String
  | .notHeld (.release m) h =>
    "Attempt to release a " ++ m.name ++ " lock which is not held: " ++ h.describe
  | .notHeld .upgrade h => "Attempt to upgrade a read lock which is not held: " ++ h.describe
  | .notHeld .downgrade h => "Attempt to downgrade a write lock which is not held: " ++ h.describe
  | .inUse h => "Attempt to destroy a reader-writer lock which is in use: " ++ h.describe
  | .heldWithoutMode => "internal error: entered unreachable code: A held lock always has a mode"
  | .refusedWhileWaiting => "Blocking acquisition never reports WouldBlock: WouldBlock"
  | .overflow o => o.message

def ofQuotas (q : Quotas) : QuotaLock :=
  { readQuota := q.effectiveRead, writeQuota := q.effectiveWrite }

def holding (l : QuotaLock) : Holding := ⟨l.mode, l.active, l.returnTo⟩

def misused (misuse : Misuse) (l : QuotaLock) : Step QuotaLock Fault Attempt :=
  .fault (.notHeld misuse l.holding) l

def waiting : Mode → QuotaLock → UInt32
  | .read, l => l.readersWaiting
  | .write, l => l.writersWaiting

def withWaiting : Mode → UInt32 → QuotaLock → QuotaLock
  | .read, n, l => { l with readersWaiting := n }
  | .write, n, l => { l with writersWaiting := n }

def readQuotaLeft (l : QuotaLock) : Bool :=
  l.writersWaiting == 0 || decide (l.granted < l.readQuota)

def admits : Mode → QuotaLock → Bool
  | .read, l => l.active == 0 || (l.mode == some .read && l.readQuotaLeft)
  | .write, l => l.active == 0

inductive Bid
  | granted
  | refused
  | asleep
  deriving DecidableEq

def countGrant (l : QuotaLock) : Step QuotaLock Fault Bid :=
  match Checked.increment l.granted with
  | .ok n => .done .granted { l with granted := n }
  | .error o => .fault (.overflow o) l

/-- Counts the holder before the grant, so that a fault between the two leaves a holder behind. -/
def grant : Mode → QuotaLock → Step QuotaLock Fault Bid
  | .read, l =>
    match Checked.increment l.active with
    | .ok n => { l with mode := some .read, active := n }.countGrant
    | .error o => .fault (.overflow o) { l with mode := some .read }
  | .write, l => { l with mode := some .write, active := 1 }.countGrant

def sleep (m : Mode) (l : QuotaLock) : Step QuotaLock Fault Bid :=
  match Checked.increment (l.waiting m) with
  | .ok n =>
    { result := .ok .asleep, lock := l.withWaiting m n,
      notes := [.trace (match m with
        | .read => "Reader waiting on the quota lock"
        | .write => "Writer waiting on the quota lock")] }
  | .error o => .fault (.overflow o) l

/-- Bids for the lock, with or without waiting for it. A bid that `yields` lets those already
asleep go first. -/
def bid (m : Mode) (mayWait yields : Bool) (l : QuotaLock) : Step QuotaLock Fault Bid :=
  if !yields && l.admits m then l.grant m
  else if mayWait then l.sleep m
  else .done .refused l

def bidAsNewcomer (m : Mode) (mayWait : Bool) (l : QuotaLock) : Step QuotaLock Fault Bid :=
  l.bid m mayWait (l.waiting m != 0)

def tryLock (m : Mode) (l : QuotaLock) : Step QuotaLock Fault Attempt :=
  (l.bidAsNewcomer m false).map fun
    | .granted => .done
    | .refused => .wouldBlock
    | .asleep => .wouldBlock

def turnOf (m : Mode) (s : Step QuotaLock Fault Bid) : Step QuotaLock Fault (Turn Mode) :=
  { s with
    result := match s.result with
      | .ok .granted => .ok .acquired
      | .ok .refused => .error .refusedWhileWaiting
      | .ok .asleep => .ok (.asleep m)
      | .error f => .error f }

def enter (m : Mode) (l : QuotaLock) : Step QuotaLock Fault (Turn Mode) :=
  turnOf m (l.bidAsNewcomer m true)

def resume (m : Mode) (l : QuotaLock) : Step QuotaLock Fault (Turn Mode) :=
  match Checked.decrement (l.waiting m) with
  | .ok n => turnOf m ((l.withWaiting m n).bid m true false)
  | .error o => .fault (.overflow o) l

def handOff (l : QuotaLock) : Step QuotaLock Fault Attempt :=
  match l.mode with
  | some .read =>
    let l := { l with granted := 0 }
    if l.writersWaiting > 0 then
      { result := .ok .done, lock := { l with mode := some .write }, signals := [.one .write] }
    else
      { result := .ok .done, lock := l,
        signals := if l.readersWaiting > 0 then [.all .read] else [] }
  | some .write =>
    if l.readersWaiting > 0 then
      if l.writersWaiting > 0 ∧ l.granted < l.writeQuota then
        { result := .ok .done, lock := l, signals := [.one .write] }
      else
        { result := .ok .done, lock := { l with granted := 0, mode := some .read },
          signals := [.all .read],
          notes := [.trace ("Quota lock switching to readers after " ++ toString l.granted ++
            " writes")] }
    else
      { result := .ok .done, lock := { l with granted := 0 },
        signals := if l.writersWaiting > 0 then [.one .write] else [] }
  | none => .fault .heldWithoutMode l

/-- The last holder to leave hands the lock on, in the mode in which the hold began. -/
def unlock (m : Mode) (l : QuotaLock) : Step QuotaLock Fault Attempt :=
  if l.active = 0 ∨ l.mode ≠ some m then l.misused (.release m)
  else
    let left := { l with active := l.active - 1 }
    if left.active ≠ 0 then .done .done left
    else { left with mode := left.returnTo.or left.mode, returnTo := none }.handOff

/-- Converting back puts the hold where it began; converting away remembers where that was. -/
def convertedFrom (m : Mode) : Option Mode → Option Mode
  | none => some m
  | some _ => none

def upgrade (l : QuotaLock) : Step QuotaLock Fault Attempt :=
  if l.mode ≠ some .read ∨ l.active = 0 then l.misused .upgrade
  else if l.active ≠ 1 then .done .wouldBlock l
  else .done .done { l with mode := some .write, returnTo := convertedFrom .read l.returnTo }

def downgrade (l : QuotaLock) : Step QuotaLock Fault Attempt :=
  if l.mode ≠ some .write ∨ l.active ≠ 1 then l.misused .downgrade
  else
    let left := { l with mode := some .read, returnTo := convertedFrom .write l.returnTo }
    { result := .ok .done, lock := left,
      signals := if left.returnTo.isNone && left.readQuotaLeft && decide (left.readersWaiting > 0)
        then [.all .read] else [] }

def request : Request → QuotaLock → Step QuotaLock Fault Attempt
  | .tryLock m => tryLock m
  | .unlock m => unlock m
  | .upgrade => upgrade
  | .downgrade => downgrade

def destroy (l : QuotaLock) : Except Fault Unit :=
  if l.active = 0 ∧ l.readersWaiting = 0 ∧ l.writersWaiting = 0 then .ok ()
  else .error (.inUse l.holding)

instance : Place Mode := ⟨id⟩

instance : RawLock QuotaLock Mode Fault where
  request := request
  enter := enter
  resume := resume
  spins := spins
  withSpins l estimate := { l with spins := estimate }
  destroy := destroy
  ofOverflow := .overflow
  message := Fault.message

end QuotaLock

end SyncKit
