import SyncKit.Log
import SyncKit.Notifier.Notify

namespace SyncKit

def Happening.notes : Happening → List Note
  | .finished delivered total =>
    .debug ("Destroy notification delivered " ++ toString delivered ++ " of " ++ toString total ++
      " events") ::
    (if delivered = total then []
      else [.warn (toString (total - delivered) ++
        " destroy events could not be delivered and were dropped")])
  | _ => []

structure Sighting where
  kind : String
  sender : String
  payload : String
  noted : Option Nat
  deriving DecidableEq

/-- Channels keep no record, and neither does a task that was cut short. -/
def Happening.sighting? : Happening → Option Sighting
  | .dispatched ⟨_, ⟨.act (.send _), _⟩, _⟩ => none
  | .dispatched ⟨_, _, .cutShort⟩ => none
  | .dispatched ⟨sender, ⟨task, payload⟩, .accepted noted⟩ =>
    some ⟨task.kind, sender, payload, noted⟩
  | .dispatched ⟨sender, ⟨task, payload⟩, _⟩ => some ⟨task.kind, sender, payload, none⟩
  | _ => none

namespace Notifier

inductive Operation
  | register (r : Registration)
  | notify (sender : String)
  | receive (channel : String)
  | close (channel : String)
  | describe
  deriving DecidableEq

inductive Answer
  | done
  | delivered (count : Nat)
  | panicked (message : String)
  | events (received : List Event)
  | closed
  | text (s : String)
  deriving DecidableEq

structure Result where
  answer : Answer
  happenings : List Happening := []
  after : Notifier

namespace Result

def sightings (r : Result) : List Sighting := r.happenings.filterMap Happening.sighting?

def notes (r : Result) : List Note := r.happenings.flatMap Happening.notes

end Result

def perform (n : Notifier) : Operation → Result
  | .register r => { answer := .done, after := n.register r }
  | .notify sender =>
    let d := n.notify sender
    { answer := match d.result with
        | .ok count => .delivered count
        | .error message => .panicked message
      happenings := d.happenings
      after := d.after }
  | .receive name =>
    match n.channels name with
    | .receiving buffer =>
      { answer := .events buffer, after := n.setChannel name (.receiving []) }
    | .closed => { answer := .closed, after := n }
  | .close name => { answer := .done, after := n.setChannel name .closed }
  | .describe => { answer := .text n.describe, after := n }

def run : List Operation → Notifier → List Result
  | [], _ => []
  | op :: later, n => n.perform op :: run later (n.perform op).after

end Notifier

end SyncKit
