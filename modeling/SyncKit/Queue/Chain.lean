import SyncKit.Queue.Link

namespace SyncKit

/-- A first-in first-out queue, which knows only its ends: its elements know their neighbours. -/
structure Queue where
  id : Ident
  head : Option Item := none
  tail : Option Item := none
  deriving DecidableEq

def Queue.isEmpty (q : Queue) : Bool := q.head.isNone

def Queue.describe (q : Queue) : String :=
  "ConcurrentQueue \x7b id: QueueId(" ++ toString q.id.val ++ "), .. \x7d"

structure Chain where
  queue : Queue
  links : Links
  deriving DecidableEq

namespace Chain

inductive Fault
  | alreadyLinked (owner : Option Ident)
  | notLinked (id : Ident) (state : Link.State)
  | stillLinked (id : Ident)
  deriving DecidableEq

def Fault.message : Fault → String
  | .alreadyLinked owner =>
    "Attempt to push an element which is already linked into queue " ++ toString (Ident.raw owner)
  | .notLinked id state =>
    "Attempt to unlink an element which is not linked into queue " ++ toString id.val ++
      " (state: " ++ state.describe ++ ")"
  | .stillLinked id =>
    "Attempt to destroy queue " ++ toString id.val ++ " while elements are still linked"

def append (i : Item) (c : Chain) : Chain :=
  let links := c.links.update i fun l ↦ { l with prev := c.queue.tail, next := none }
  let links :=
    match c.queue.tail with
    | some last => links.update last fun l ↦ { l with next := some i }
    | none => links
  let head := if c.queue.tail.isNone && c.queue.head.isNone then some i else c.queue.head
  ⟨{ c.queue with head, tail := some i }, links⟩

/-- The element is claimed first, which fails if any queue holds it. -/
def push (i : Item) (c : Chain) : Except Fault Unit × Chain :=
  match (c.links.get i).owner.compareExchange none (some c.queue.id) with
  | (.ok _, owner) =>
    (.ok (), { c with links := c.links.update i fun l ↦ { l with owner } }.append i)
  | (.error owner, _) => (.error (.alreadyLinked owner), c)

def pop (c : Chain) : Option Item × Chain :=
  match c.queue.head with
  | none => (none, c)
  | some front =>
    match (c.links.get front).next with
    | none =>
      (some front,
        ⟨{ c.queue with head := none, tail := none }, c.links.update front Link.reset⟩)
    | some next =>
      (some front,
        ⟨{ c.queue with head := some next },
          (c.links.update next fun l ↦ { l with prev := none }).update front Link.reset⟩)

def bypass (l : Link) (c : Chain) : Chain :=
  let c :=
    match l.prev with
    | none => { c with queue.head := l.next }
    | some p => { c with links := c.links.update p fun k ↦ { k with next := l.next } }
  match l.next with
  | none => { c with queue.tail := l.prev }
  | some n => { c with links := c.links.update n fun k ↦ { k with prev := l.prev } }

def remove? (i : Item) (c : Chain) : Option Item × Chain :=
  let l := c.links.get i
  if l.isLinkedTo c.queue.id then
    let c := c.bypass l
    (some i, { c with links := c.links.update i Link.reset })
  else (none, c)

def unlink (i : Item) (c : Chain) : Except Fault Item × Chain :=
  match c.remove? i with
  | (some i, c) => (.ok i, c)
  | (none, c) => (.error (.notLinked c.queue.id (c.links.get i).state), c)

/-- How many more elements popping can yield at most, whatever the links look like. -/
def weight (c : Chain) : Nat := c.links.chained + (if c.queue.head.isSome then 1 else 0)

theorem weight_pop_lt {c d : Chain} {i : Item} (h : c.pop = (some i, d)) : d.weight < c.weight := by
  unfold pop at h
  split at h
  · cases h
  · next front hf =>
    split at h
    · cases h
      have := c.links.chained_reset_le i
      simp only [weight, hf, Option.isSome_none, Option.isSome_some, Bool.false_eq_true,
        ↓reduceIte]
      omega
    · next next hn =>
      cases h
      have hs : ((c.links.update next fun l ↦ { l with prev := none }).get i).next.isSome := by
        rw [Links.get_update]
        split <;> simp [hn]
      have hk : (c.links.update next fun l ↦ { l with prev := none }).chained = c.links.chained :=
        Links.chained_update_of_next next fun _ ↦ rfl
      have := Links.chained_reset_lt hs
      simp only [weight, hf, Option.isSome_some, ↓reduceIte]
      omega

def drain (c : Chain) : List Item × Chain :=
  match h : c.pop with
  | (none, d) => ([], d)
  | (some i, d) =>
    have := weight_pop_lt h
    let (later, e) := d.drain
    (i :: later, e)
termination_by c.weight

def destroy (c : Chain) : Except Fault Unit :=
  if c.queue.isEmpty then .ok () else .error (.stillLinked c.queue.id)

end Chain

end SyncKit
