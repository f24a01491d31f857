import SyncKit.Log
import SyncKit.Queue.Chain

namespace SyncKit

/-- Queues and elements. A queue that is gone leaves its place empty, and its id is not used
again. -/
structure Store where
  queues : List (Option Queue) := []
  links : Links := {}
  nextId : UInt64 := 1
  deriving DecidableEq

namespace Store

def queue? (s : Store) (q : Nat) : Option Queue := s.queues[q]?.join

def put (s : Store) (q : Nat) (c : Chain) : Store :=
  { s with queues := s.queues.set q (some c.queue), links := c.links }

def newQueue (s : Store) : Option Ident × Store :=
  let later := { s with nextId := s.nextId + 1 }
  match Ident.ofRaw? s.nextId with
  | some id => (some id, { later with queues := s.queues ++ [some { id }] })
  | none => (none, later)

def newItem (s : Store) : Item × Store := (s.links.size, { s with links := s.links.add })

def dropQueue (q : Nat) (queue : Queue) (s : Store) : List Note × Store :=
  let (released, c) := (Chain.mk queue s.links).drain
  (if released.isEmpty then []
    else [.warn ("Queue " ++ toString queue.id.val ++ " dropped with " ++
      toString released.length ++ " elements still linked; releasing them")],
    { s with queues := s.queues.set q none, links := c.links })

/-- Destroys a queue, which is dropped whether it was empty or not. -/
def destroyQueue (q : Nat) (queue : Queue) (s : Store) :
    Except Chain.Fault Unit × List Note × Store :=
  ((Chain.mk queue s.links).destroy, s.dropQueue q queue)

def drainAll (links : Links) : List (Option Queue) → List (Option (List Item))
  | [] => []
  | none :: later => none :: drainAll links later
  | some queue :: later =>
    let (items, c) := (Chain.mk queue links).drain
    some items :: drainAll c.links later

end Store

end SyncKit
