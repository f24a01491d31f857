namespace SyncKit

/-- A counter of the shares in an object. It frees nothing itself: whoever takes it to zero has to
destroy the object. -/
structure ShareCount where
  /-- Positive while the object is alive. It wraps, and faulty calls leave their mark on it. -/
  refs : Int32
  deriving DecidableEq

namespace ShareCount

inductive Fault
  | fromZero
  | alreadyZero
  | overflowed
  | stillReferenced (refs : Int32)
  deriving DecidableEq

def Fault.message : Fault → String
  | .fromZero => "Attempt to take a share of a reference count which already reached zero"
  | .alreadyZero => "Attempt to release a share of a reference count which is already zero"
  | .overflowed => "Reference count overflowed"
  | .stillReferenced refs =>
    "assertion `left == right` failed: Attempt to destroy a reference count which still has " ++
      toString refs ++ " references\n  left: " ++ toString refs ++ "\n right: 0"

def new (n : UInt32) : Except Fault ShareCount :=
  if n.toNat < 0x80000000 then .ok ⟨Int32.ofNat n.toNat⟩ else .error .overflowed

def current (c : ShareCount) : Nat := c.refs.toInt.toNat

/-- Adds a share to a count of at least `least`. The word has changed even where that faults. -/
def addShare (least : Int32) (c : ShareCount) : Except Fault Nat × ShareCount :=
  let result :=
    if c.refs < least then .error .fromZero
    else if c.refs = Int32.maxValue then .error .overflowed
    else .ok (c.refs.toInt + 1).toNat
  (result, ⟨c.refs + 1⟩)

def increment : ShareCount → Except Fault Nat × ShareCount := addShare 1

def incrementFirst : ShareCount → Except Fault Nat × ShareCount := addShare 0

def decrement (c : ShareCount) : Except Fault Nat × ShareCount :=
  (if c.refs ≤ 0 then .error .alreadyZero else .ok (c.refs.toInt - 1).toNat, ⟨c.refs - 1⟩)

def release (c : ShareCount) : Except Fault Bool × ShareCount :=
  let (result, c) := c.decrement
  (result.map (· == 0), c)

def destroy (c : ShareCount) : Except Fault Unit :=
  if c.refs = 0 then .ok () else .error (.stillReferenced c.refs)

def describe (c : ShareCount) : String := "RefCount \x7b refs: " ++ toString c.refs ++ " \x7d"

inductive Operation
  | increment
  | incrementFirst
  | decrement
  | release
  | current
  | describe
  | destroy
  deriving DecidableEq

inductive Answer
  | done
  | count (n : Nat)
  | last (b : Bool)
  | text (s : String)
  | fault (f : Fault)
  | gone
  deriving DecidableEq

namespace Answer

def ofCount : Except Fault Nat → Answer
  | .ok n => .count n
  | .error f => .fault f

def ofLast : Except Fault Bool → Answer
  | .ok b => .last b
  | .error f => .fault f

def ofUnit : Except Fault Unit → Answer
  | .ok () => .done
  | .error f => .fault f

end Answer

def perform (c : ShareCount) : Operation → Answer × Option ShareCount
  | .increment => (.ofCount c.increment.1, some c.increment.2)
  | .incrementFirst => (.ofCount c.incrementFirst.1, some c.incrementFirst.2)
  | .decrement => (.ofCount c.decrement.1, some c.decrement.2)
  | .release => (.ofLast c.release.1, some c.release.2)
  | .current => (.count c.current, some c)
  | .describe => (.text c.describe, some c)
  | .destroy => (.ofUnit c.destroy, none)

/-- The answers of a run, each with the counter it leaves behind. Destroying takes the counter
away even if it faults. -/
def run : List Operation → Option ShareCount → List (Answer × Option ShareCount)
  | [], _ => []
  | _ :: later, none => (.gone, none) :: run later none
  | op :: later, some c => c.perform op :: run later (c.perform op).2

end ShareCount

end SyncKit
