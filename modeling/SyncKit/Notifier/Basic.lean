namespace SyncKit

structure Event where
  sender : String
  payload : String
  deriving DecidableEq

/-- An unbounded channel, with what it has not handed out yet. A closed one refuses everything. -/
inductive Channel
  | receiving (buffer : List Event)
  | closed
  deriving DecidableEq

inductive Action
  | send (channel : String)
  | refuse
  | count
  | register (channel payload : String)
  | panic (message : String)
  deriving DecidableEq

inductive Task
  | act (a : Action)
  | notify (sender : String)
  deriving DecidableEq

def Task.kind : Task → String
  | .act (.send _) => "channel"
  | .act .refuse => "refuse"
  | .act .count => "count"
  | .act (.register _ _) => "register"
  | .act (.panic _) => "panic"
  | .notify _ => "notify"

structure Registration where
  task : Task
  payload : String
  deriving DecidableEq

structure Notifier where
  waiting : List Registration := []
  channels : String → Channel := fun _ ↦ .receiving []

/-- How the dispatch of an event ends. A task that accepts may note a number. A task is cut short
when a panic goes through it that is not its own. -/
inductive Verdict
  | accepted (noted : Option Nat)
  | refused
  | panicked
  | cutShort
  deriving DecidableEq

structure Dispatch where
  sender : String
  registration : Registration
  verdict : Verdict
  deriving DecidableEq

/-- What a notification goes through. One that a task began lies within the one it is part of. -/
inductive Happening
  | began (sender : String) (batch : List Registration)
  | dispatched (d : Dispatch)
  | discarded (batch : List Registration)
  | finished (delivered total : Nat)
  deriving DecidableEq

namespace Notifier

def setChannel (name : String) (c : Channel) (n : Notifier) : Notifier :=
  { n with channels := fun other ↦ if other = name then c else n.channels other }

def register (r : Registration) (n : Notifier) : Notifier :=
  { n with waiting := n.waiting ++ [r] }

def describe (n : Notifier) : String :=
  "OnDestroy \x7b waiters: " ++ toString n.waiting.length ++ " \x7d"

end Notifier

end SyncKit
