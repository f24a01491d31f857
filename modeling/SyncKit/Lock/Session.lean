import SyncKit.Lock.Guards

namespace SyncKit

namespace Guarded

inductive Operation
  | lock (m : Mode) (label : String)
  | request (r : Request)
  | acquire (slot : String) (m : Mode)
  | tryAcquire (slot : String) (m : Mode)
  | upgrade (slot : String)
  | downgrade (slot : String)
  | drop (slot : String)
  | destroy
  deriving DecidableEq

variable {L W F : Type} [Place W] [RawLock L W F]

/-- Tearing the lock down takes it away even if it was in use. -/
def destroy (g : Guarded L W) : Report F (Option (Guarded L W)) :=
  match RawLock.destroy g.calls.lock with
  | .ok () => { answer := .reply .done, after := none }
  | .error f => { answer := .reply (.fault f), after := none }

def kept (r : Report F (Guarded L W)) : Report F (Option (Guarded L W)) :=
  { answer := r.answer, returned := r.returned, notes := r.notes, after := some r.after }

def perform (op : Operation) (g : Guarded L W) : Report F (Option (Guarded L W)) :=
  match op with
  | .lock m label => kept (g.call label m)
  | .request r => kept (g.request r)
  | .acquire slot m => kept (g.acquire slot m)
  | .tryAcquire slot m => kept (g.tryAcquire slot m)
  | .upgrade slot => kept (g.upgrade slot)
  | .downgrade slot => kept (g.downgrade slot)
  | .drop slot => kept (g.drop slot)
  | .destroy => g.destroy

def step (op : Operation) : Option (Guarded L W) → Report F (Option (Guarded L W))
  | none => { answer := .denied .gone, after := none }
  | some g => g.perform op

def run : List Operation → Option (Guarded L W) → List (Report F (Option (Guarded L W)))
  | [], _ => []
  | op :: later, g =>
    let report := step op g
    report :: run later report.after

/-- The calls that came back, by name, each with the text of its fault if it had one. Calls that
came back in the same step did so in no fixed order. -/
def Report.woke {σ : Type} (message : F → String) (report : Report F σ) :
    List (String × Option String) :=
  let entries := report.returned.map fun r ↦
    (r.caller.name, match r.result with
      | .ok () => none
      | .error f => some (message f))
  entries.mergeSort fun a b ↦
    decide (a.1 < b.1) || (a.1 == b.1 && decide (a.2.getD "" ≤ b.2.getD ""))

end Guarded

end SyncKit
