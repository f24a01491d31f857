import SyncKit.Lock.Raw
import SyncKit.Spin

namespace SyncKit

/-- A call that sleeps in the lock. It keeps the spin estimate it read when it started. -/
structure Sleeper (κ W : Type) where
  caller : κ
  wait : W
  estimate : Int32
  deriving DecidableEq

def Sleeper.mode {κ W : Type} [Place W] (s : Sleeper κ W) : Mode := Place.mode s.wait

def Signal.split {κ W : Type} [Place W] (sleepers : List (Sleeper κ W)) :
    Signal → List (Sleeper κ W) × List (Sleeper κ W)
  | .all m => sleepers.partition (·.mode == m)
  | .one m => ((sleepers.filter (·.mode == m)).take 1, sleepers.eraseP (·.mode == m))

structure Returned (κ F : Type) where
  caller : κ
  mode : Mode
  result : Except F Unit

inductive Reply (F : Type)
  | done
  | wouldBlock
  | asleep
  | fault (f : F)
  deriving DecidableEq

namespace Reply

def ofAttempt {F : Type} : Except F Attempt → Reply F
  | .ok .done => .done
  | .ok .wouldBlock => .wouldBlock
  | .error f => .fault f

def ofTurn {F W : Type} : Except F (Turn W) → Reply F
  | .ok .acquired => .done
  | .ok (.asleep _) => .asleep
  | .error f => .fault f

end Reply

/-- A lock together with the calls asleep in it, as it is between two operations. Which sleeper a
signal for one picks, and the order in which woken calls run, follow the order of the list. -/
structure Contended (L W κ : Type) where
  lock : L
  sleepers : List (Sleeper κ W) := []

structure Aftermath (L W F κ : Type) where
  lock : L
  returned : List (Returned κ F) := []
  asleep : List (Sleeper κ W) := []
  notes : List Note := []

structure Outcome (L W F κ : Type) where
  reply : Reply F
  returned : List (Returned κ F) := []
  notes : List Note := []
  after : Contended L W κ

namespace Contended

variable {L W F κ : Type} [Place W] [RawLock L W F]

def conclude (estimate spent : Int32) (step : Step L F (Turn W)) : Step L F (Turn W) :=
  match step.result with
  | .ok .acquired =>
    match Spin.next estimate spent with
    | .ok moved => { step with lock := RawLock.withSpins step.lock moved }
    | .error o => { step with result := .error (RawLock.ofOverflow (L := L) o) }
  | _ => step

def resume (s : Sleeper κ W) (l : L) : Step L F (Turn W) :=
  conclude s.estimate (Spin.spent s.estimate none) (RawLock.resume s.wait l)

/-- Runs woken calls one after the other, each until it returns or sleeps again. None of them
wakes another. -/
def resumeAll : L → List (Sleeper κ W) → Aftermath L W F κ
  | l, [] => { lock := l }
  | l, s :: later =>
    let step := resume s l
    let rest := resumeAll step.lock later
    let rest := { rest with notes := step.notes ++ rest.notes }
    match step.result with
    | .ok .acquired => { rest with returned := ⟨s.caller, s.mode, .ok ()⟩ :: rest.returned }
    | .ok (.asleep wait) => { rest with asleep := { s with wait } :: rest.asleep }
    | .error f => { rest with returned := ⟨s.caller, s.mode, .error f⟩ :: rest.returned }

def wake (sleepers : List (Sleeper κ W)) :
    List Signal → List (Sleeper κ W) × List (Sleeper κ W)
  | [] => ([], sleepers)
  | signal :: later =>
    let (woken, rest) := signal.split sleepers
    let (others, rest) := wake rest later
    (woken ++ others, rest)

/-- Lets the sleepers that a step has woken run on. Those that sleep again queue behind those that
were not woken. -/
def settle {α : Type} (step : Step L F α) (sleepers : List (Sleeper κ W)) : Aftermath L W F κ :=
  let (woken, rest) := wake sleepers step.signals
  let run := resumeAll step.lock woken
  { run with asleep := rest ++ run.asleep, notes := step.notes ++ run.notes }

def request (r : Request) (c : Contended L W κ) : Outcome L W F κ :=
  let step := RawLock.request r c.lock
  let run := settle step c.sleepers
  { reply := .ofAttempt step.result
    returned := run.returned
    notes := run.notes
    after := ⟨run.lock, run.asleep⟩ }

def spinOnce (m : Mode) : L × List Signal → Except F Bool × L × List Signal
  | (l, signals) =>
    let step := RawLock.request (.tryLock m) l
    (step.result.map (· == .done), step.lock, signals ++ step.signals)

def enter (m : Mode) (l : L) : Step L F (Turn W) :=
  let estimate := RawLock.spins l
  match Spin.phase (spinOnce m) (Spin.tries estimate) 0 (l, []) with
  | (.ok (some made), l, signals) =>
    conclude estimate (Spin.spent estimate (some made))
      { result := .ok .acquired, lock := l, signals }
  | (.ok none, l, signals) =>
    let step := RawLock.enter m l
    conclude estimate (Spin.spent estimate none) { step with signals := signals ++ step.signals }
  | (.error f, l, signals) => { result := .error f, lock := l, signals }

def call (caller : κ) (m : Mode) (c : Contended L W κ) : Outcome L W F κ :=
  let step := enter m c.lock
  let run := settle step c.sleepers
  let joining : List (Sleeper κ W) :=
    match step.result with
    | .ok (.asleep wait) => [⟨caller, wait, RawLock.spins c.lock⟩]
    | _ => []
  { reply := .ofTurn step.result
    returned := run.returned
    notes := run.notes
    after := ⟨run.lock, run.asleep ++ joining⟩ }

end Contended

end SyncKit
