import SyncKit.Lock.Mode
import SyncKit.Log
import SyncKit.Overflow

namespace SyncKit

inductive Attempt
  | done
  | wouldBlock
  deriving DecidableEq

def Attempt.wouldBlockName : String := "WouldBlock"

def Attempt.wouldBlockMessage : String := "The operation would block"

/-- The operations on a lock that never wait. The lock does not know its holders: each operation
is made on behalf of whoever asks. -/
inductive Request
  | tryLock (m : Mode)
  | unlock (m : Mode)
  | upgrade
  | downgrade
  deriving DecidableEq

inductive Misuse
  | release (m : Mode)
  | upgrade
  | downgrade
  deriving DecidableEq

/-- Whom an operation wakes: one sleeper of a mode, or all of them. A signal that finds nobody
asleep is lost. -/
inductive Signal
  | one (m : Mode)
  | all (m : Mode)
  deriving DecidableEq

/-- A piece of lock code run to its end. The lock is there after a fault as well, with whatever
the code had changed by then. -/
structure Step (L F α : Type) where
  result : Except F α
  lock : L
  signals : List Signal := []
  notes : List Note := []

namespace Step

variable {L F α β : Type}

def done (a : α) (l : L) : Step L F α := { result := .ok a, lock := l }

def fault (f : F) (l : L) : Step L F α := { result := .error f, lock := l }

def map (g : α → β) (s : Step L F α) : Step L F β := { s with result := s.result.map g }

end Step

inductive Turn (W : Type)
  | acquired
  | asleep (wait : W)
  deriving DecidableEq

class Place (W : Type) where
  mode : W → Mode

/-- A reader-writer lock that waits by sleeping: `W` says where in its code a call sleeps, `F`
what can go wrong. -/
class RawLock (L : Type) (W F : outParam Type) where
  request : Request → L → Step L F Attempt
  enter : Mode → L → Step L F (Turn W)
  /-- The blocking path from the place where it slept. It signals nobody. -/
  resume : W → L → Step L F (Turn W)
  spins : L → Int32
  withSpins : L → Int32 → L
  destroy : L → Except F Unit
  ofOverflow : Overflow → F
  message : F → String

end SyncKit
