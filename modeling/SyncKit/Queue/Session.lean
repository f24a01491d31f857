import SyncKit.Queue.Store

namespace SyncKit

namespace Store

inductive Operation
  | newQueue
  | newItem
  | push (q : Nat) (i : Item)
  | pop (q : Nat)
  | unlink (q : Nat) (i : Item)
  | remove (q : Nat) (i : Item)
  | isEmpty (q : Nat)
  | id (q : Nat)
  | describe (q : Nat)
  | compare (q p : Nat)
  | state (i : Item)
  | isLinked (i : Item)
  | describeLink (i : Item)
  | destroy (q : Nat)
  | drop (q : Nat)
  | forget (i : Item)
  deriving DecidableEq

inductive Answer
  | done
  | madeQueue (id : Ident)
  | item (i : Option Item)
  | truth (b : Bool)
  | id (id : Ident)
  | order (o : Ordering)
  | text (s : String)
  | fault (f : Chain.Fault)
  | idsExhausted
  | noQueue
  | noItem
  deriving DecidableEq

def idsExhaustedMessage : String := "Queue ids never wrap in practice"

def Answer.ofUnit : Except Chain.Fault Unit → Answer
  | .ok () => .done
  | .error f => .fault f

def Answer.ofItem : Except Chain.Fault Item → Answer
  | .ok i => .item (some i)
  | .error f => .fault f

structure Session where
  store : Store := {}
  held : List Bool := []
  deriving DecidableEq

structure Result where
  answer : Answer
  notes : List Note := []
  after : Session

namespace Session

def holds (s : Session) (i : Item) : Bool := s.held[i]?.getD false

def withQueue (s : Session) (q : Nat) (f : Queue → Result) : Result :=
  match s.store.queue? q with
  | some queue => f queue
  | none => { answer := .noQueue, after := s }

def withItem (s : Session) (i : Item) (f : Link → Result) : Result :=
  if s.holds i then f (s.store.links.get i) else { answer := .noItem, after := s }

def tell (s : Session) (answer : Answer) : Result := { answer, after := s }

def receive (s : Session) : Option Item → Session
  | some i => { s with held := s.held.set i true }
  | none => s

def perform (s : Session) : Operation → Result
  | .newQueue =>
    match s.store.newQueue with
    | (some id, store) => { s with store }.tell (.madeQueue id)
    | (none, store) => { s with store }.tell .idsExhausted
  | .newItem =>
    let (i, store) := s.store.newItem
    { store, held := s.held ++ [true] : Session }.tell (.item (some i))
  | .push q i =>
    s.withQueue q fun queue ↦ s.withItem i fun _ ↦
      let (result, c) := (Chain.mk queue s.store.links).push i
      { s with store := s.store.put q c }.tell (.ofUnit result)
  | .pop q =>
    s.withQueue q fun queue ↦
      let (item, c) := (Chain.mk queue s.store.links).pop
      ({ s with store := s.store.put q c }.receive item).tell (.item item)
  | .unlink q i =>
    s.withQueue q fun queue ↦ s.withItem i fun _ ↦
      let (result, c) := (Chain.mk queue s.store.links).unlink i
      { s with store := s.store.put q c }.tell (.ofItem result)
  | .remove q i =>
    s.withQueue q fun queue ↦ s.withItem i fun _ ↦
      let (item, c) := (Chain.mk queue s.store.links).remove? i
      { s with store := s.store.put q c }.tell (.item item)
  | .isEmpty q => s.withQueue q fun queue ↦ s.tell (.truth queue.isEmpty)
  | .id q => s.withQueue q fun queue ↦ s.tell (.id queue.id)
  | .describe q => s.withQueue q fun queue ↦ s.tell (.text queue.describe)
  | .compare q p =>
    s.withQueue q fun a ↦ s.withQueue p fun b ↦
      s.tell (.order (compareOfLessAndEq a.id.val b.id.val))
  | .state i => s.withItem i fun l ↦ s.tell (.text l.state.describe)
  | .isLinked i => s.withItem i fun l ↦ s.tell (.truth l.isLinked)
  | .describeLink i => s.withItem i fun l ↦ s.tell (.text l.describe)
  | .destroy q =>
    s.withQueue q fun queue ↦
      let (result, notes, store) := s.store.destroyQueue q queue
      { answer := .ofUnit result, notes, after := { s with store } }
  | .drop q =>
    s.withQueue q fun queue ↦
      let (notes, store) := s.store.dropQueue q queue
      { answer := .done, notes, after := { s with store } }
  | .forget i => s.withItem i fun _ ↦ { s with held := s.held.set i false }.tell .done

def start (queues items : Nat) : Session :=
  let made := (List.replicate queues Operation.newQueue) ++ List.replicate items Operation.newItem
  made.foldl (fun s op ↦ (s.perform op).after) {}

def run : List Operation → Session → List Result
  | [], _ => []
  | op :: later, s => s.perform op :: run later (s.perform op).after

def linkStates (s : Session) : List (Option Link.State) :=
  s.held.mapIdx fun i held ↦ if held then some (s.store.links.get i).state else none

def emptiness (s : Session) : List (Option Bool) := s.store.queues.map (·.map Queue.isEmpty)

def drained (s : Session) : List (Option (List Item)) := drainAll s.store.links s.store.queues

end Session

end Store

end SyncKit
