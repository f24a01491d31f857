import SyncKit.Lock.Contended

namespace SyncKit

inductive Caller
  | call (label : String)
  | guard (slot : String)
  deriving DecidableEq

def Caller.name : Caller → String
  | .call label => label
  | .guard slot => "g:" ++ slot

structure Guard where
  slot : String
  mode : Mode
  deriving DecidableEq

structure Guarded (L W : Type) where
  calls : Contended L W Caller
  guards : List Guard := []

namespace Guarded

inductive Denial
  | slotTaken
  | noGuard
  | wrongGuard
  | gone
  deriving DecidableEq

def Denial.name : Denial → String
  | .slotTaken => "SlotTaken"
  | .noGuard => "NoGuard"
  | .wrongGuard => "WrongGuard"
  | .gone => "Gone"

inductive Answer (F : Type)
  | reply (r : Reply F)
  | upgraded
  | refused
  | denied (d : Denial)
  deriving DecidableEq

structure Report (F σ : Type) where
  answer : Answer F
  returned : List (Returned Caller F) := []
  notes : List Note := []
  after : σ

variable {L W F : Type} [Place W] [RawLock L W F]

def guard? (g : Guarded L W) (slot : String) : Option Guard := g.guards.find? (·.slot == slot)

/-- A slot is taken by a live guard and by a call that is to put one there. -/
def taken (g : Guarded L W) (slot : String) : Bool :=
  (g.guard? slot).isSome || g.calls.sleepers.any (·.caller == .guard slot)

/-- Removes a guard without releasing its hold. -/
def forget (g : Guarded L W) (slot : String) : Guarded L W :=
  { g with guards := g.guards.filter (·.slot != slot) }

def put (g : Guarded L W) (slot : String) (m : Mode) : Guarded L W :=
  { g with guards := (g.forget slot).guards ++ [⟨slot, m⟩] }

def arrivals (returned : List (Returned Caller F)) : List Guard :=
  returned.filterMap fun r ↦
    match r.caller, r.result with
    | .guard slot, .ok () => some ⟨slot, r.mode⟩
    | _, _ => none

def absorb (g : Guarded L W) (out : Outcome L W F Caller) (answer : Answer F) :
    Report F (Guarded L W) :=
  { answer
    returned := out.returned
    notes := out.notes
    after := ⟨out.after, g.guards ++ arrivals out.returned⟩ }

def request (r : Request) (g : Guarded L W) : Report F (Guarded L W) :=
  let out := g.calls.request r
  g.absorb out (.reply out.reply)

def call (label : String) (m : Mode) (g : Guarded L W) : Report F (Guarded L W) :=
  let out := g.calls.call (.call label) m
  g.absorb out (.reply out.reply)

def seat (g : Guarded L W) (slot : String) (m : Mode) (out : Outcome L W F Caller) :
    Report F (Guarded L W) :=
  match out.reply with
  | .done => (g.put slot m).absorb out (.reply .done)
  | reply => g.absorb out (.reply reply)

def acquire (slot : String) (m : Mode) (g : Guarded L W) : Report F (Guarded L W) :=
  if g.taken slot then { answer := .denied .slotTaken, after := g }
  else g.seat slot m (g.calls.call (.guard slot) m)

def tryAcquire (slot : String) (m : Mode) (g : Guarded L W) : Report F (Guarded L W) :=
  if g.taken slot then { answer := .denied .slotTaken, after := g }
  else g.seat slot m (g.calls.request (.tryLock m))

/-- Releases the hold of a guard, which is gone even if that fails. -/
def release (slot : String) (m : Mode) (g : Guarded L W) : Report F (Guarded L W) :=
  (g.forget slot).request (.unlock m)

/-- A conversion that faults takes its guard with it: the guard is dropped on the way out. -/
def failed (slot : String) (m : Mode) (g : Guarded L W) (out : Outcome L W F Caller) (f : F) :
    Report F (Guarded L W) :=
  let dropped := (g.absorb out (.reply (.fault f))).after.release (F := F) slot m
  { dropped with
    answer := .reply (.fault f)
    returned := out.returned ++ dropped.returned
    notes := out.notes ++ dropped.notes }

def upgrade (slot : String) (g : Guarded L W) : Report F (Guarded L W) :=
  match g.guard? slot with
  | none => { answer := .denied .noGuard, after := g }
  | some ⟨_, .write⟩ => { answer := .denied .wrongGuard, after := g }
  | some ⟨_, .read⟩ =>
    let out := g.calls.request .upgrade
    match out.reply with
    | .done => (g.put slot .write).absorb out .upgraded
    | .fault f => g.failed slot .read out f
    | _ => g.absorb out .refused

def downgrade (slot : String) (g : Guarded L W) : Report F (Guarded L W) :=
  match g.guard? slot with
  | none => { answer := .denied .noGuard, after := g }
  | some ⟨_, .read⟩ => { answer := .denied .wrongGuard, after := g }
  | some ⟨_, .write⟩ =>
    let out := g.calls.request .downgrade
    match out.reply with
    | .fault f => g.failed slot .write out f
    | reply => (g.put slot .read).absorb out (.reply reply)

def drop (slot : String) (g : Guarded L W) : Report F (Guarded L W) :=
  match g.guard? slot with
  | none => { answer := .denied .noGuard, after := g }
  | some guard => g.release slot guard.mode

end Guarded

end SyncKit
