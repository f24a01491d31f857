import Mathlib.Algebra.Order.Group.Multiset
import Mathlib.Logic.Relation
import SyncKit.Proofs.Adaptive
import SyncKit.Proofs.Lock.Grants
import SyncKit.Proofs.Lock.Waking

namespace SyncKit

open Relation

/-- How far a blocking call has got. A call that is leaving has the lock, and has yet to leave its
estimate behind. -/
inductive Stage (W : Type)
  | spinning (m : Mode) (made : Nat)
  | asleep (wait : W)
  | leaving (spent : Int32)

structure Underway (W : Type) where
  estimate : Int32
  stage : Stage W

/-- A lock with any number of blocking calls under way, none of which waits for another one to
return before it goes on. -/
structure Crowd (L W : Type) where
  lock : L
  calls : Multiset (Underway W) := 0

namespace Crowd

variable {L W F : Type} [RawLock L W F]

def turn (e : Int32) (l : L) : Except F (Turn W) → Crowd L W
  | .ok .acquired => ⟨l, {⟨e, .leaving (Spin.spent e none)⟩}⟩
  | .ok (.asleep wait) => ⟨l, {⟨e, .asleep wait⟩}⟩
  | .error _ => ⟨l, 0⟩

def go (l : L) (u : Underway W) : Crowd L W :=
  match u.stage with
  | .spinning m made =>
    if made < Spin.tries u.estimate then
      let step := RawLock.request (.tryLock m) l
      match step.result with
      | .ok .done =>
        ⟨step.lock, {⟨u.estimate, .leaving (Spin.spent u.estimate (some (made + 1)))⟩}⟩
      | .ok .wouldBlock => ⟨step.lock, {⟨u.estimate, .spinning m (made + 1)⟩}⟩
      | .error _ => ⟨step.lock, 0⟩
    else
      let step := RawLock.enter m l
      turn u.estimate step.lock step.result
  | .asleep wait =>
    let step := RawLock.resume wait l
    turn u.estimate step.lock step.result
  | .leaving spent =>
    match Spin.next u.estimate spent with
    | .ok moved => ⟨RawLock.withSpins l moved, 0⟩
    | .error _ => ⟨l, 0⟩

/-- Requests are made, calls start, and any one of those under way goes on, in any order. -/
inductive Moves : Crowd L W → Crowd L W → Prop
  | request (r : Request) (l : L) (calls : Multiset (Underway W)) :
      Moves ⟨l, calls⟩ ⟨(RawLock.request r l).lock, calls⟩
  | start (m : Mode) (l : L) (calls : Multiset (Underway W)) :
      Moves ⟨l, calls⟩ ⟨l, ⟨RawLock.spins l, .spinning m 0⟩ ::ₘ calls⟩
  | go (u : Underway W) (l : L) (calls : Multiset (Underway W)) :
      Moves ⟨l, u ::ₘ calls⟩ ⟨(go l u).lock, (go l u).calls + calls⟩

def Runs : Crowd L W → Crowd L W → Prop := ReflTransGen Moves

section Calls

variable {l : L} {calls : Multiset (Underway W)} {e : Int32}

def rest (e : Int32) : Except F (Turn W) → Multiset (Underway W)
  | .ok (.asleep wait) => {⟨e, .asleep wait⟩}
  | _ => 0

theorem runs_leave (step : Step L F (Turn W)) (h : step.result = .ok .acquired) (s : Int32) :
    Runs ⟨step.lock, ⟨e, .leaving s⟩ ::ₘ calls⟩
      ⟨(Contended.conclude e s step).lock,
        rest e (Contended.conclude e s step).result + calls⟩ := by
  have hgo : go step.lock ⟨e, .leaving s⟩ =
      ⟨(Contended.conclude e s step).lock, rest e (Contended.conclude e s step).result⟩ := by
    simp only [go, Contended.conclude, h]
    cases Spin.next e s with
    | ok moved => simp only [rest]
    | error o => rfl
  have hmove := Moves.go ⟨e, .leaving s⟩ step.lock calls
  rw [hgo] at hmove
  exact .single hmove

theorem runs_turn (step : Step L F (Turn W)) :
    Runs ⟨(turn e step.lock step.result).lock, (turn e step.lock step.result).calls + calls⟩
      ⟨(Contended.conclude e (Spin.spent e none) step).lock,
        rest e (Contended.conclude e (Spin.spent e none) step).result + calls⟩ := by
  cases hresult : step.result with
  | error f =>
    have hleft : Contended.conclude e (Spin.spent e none) step = step := by
      simp only [Contended.conclude, hresult]
    rw [hleft, hresult]
    exact .refl
  | ok t =>
    cases t with
    | acquired =>
      rw [turn, Multiset.singleton_add]
      exact runs_leave step hresult _
    | asleep wait =>
      rw [Contended.conclude_asleep hresult, hresult]
      exact .refl

def spun (e : Int32) (m : Mode) (calls : Multiset (Underway W)) :
    Except F (Option Nat) × L × List Signal → Crowd L W
  | (.ok (some made), l, _) => ⟨l, ⟨e, .leaving (Spin.spent e (some made))⟩ ::ₘ calls⟩
  | (.ok none, l, _) => ⟨l, ⟨e, .spinning m (Spin.tries e)⟩ ::ₘ calls⟩
  | (.error _, l, _) => ⟨l, calls⟩

theorem runs_phase (m : Mode) {n made : Nat} (hn : made + n = Spin.tries e)
    (calls : Multiset (Underway W)) (l : L) (signals : List Signal) :
    Runs ⟨l, ⟨e, .spinning m made⟩ ::ₘ calls⟩
      (spun e m calls (Spin.phase (Contended.spinOnce m) n made (l, signals))) := by
  induction n generalizing made l signals with
  | zero =>
    have hmade : made = Spin.tries e := hn
    rw [Spin.phase, spun, hmade]
    exact .refl
  | succ n ih =>
    have hmade : made < Spin.tries e := by omega
    have hmove := Moves.go ⟨e, .spinning m made⟩ l calls
    simp only [go, hmade, if_true] at hmove
    cases hresult : (RawLock.request (.tryLock m) l).result with
    | error f =>
      simp only [hresult, Multiset.zero_add] at hmove
      simp only [Spin.phase, Contended.spinOnce, hresult, Except.map, spun]
      exact .single hmove
    | ok a =>
      cases a with
      | done =>
        simp only [hresult, Multiset.singleton_add] at hmove
        simp only [Spin.phase, Contended.spinOnce, hresult, Except.map, beq_self_eq_true, spun]
        exact .single hmove
      | wouldBlock =>
        simp only [hresult, Multiset.singleton_add] at hmove
        have hfalse : (Attempt.wouldBlock == Attempt.done) = false := rfl
        simp only [Spin.phase, Contended.spinOnce, hresult, Except.map, hfalse]
        exact .head hmove (ih (by omega) _ _)

theorem runs_enter (m : Mode) (l : L) (calls : Multiset (Underway W)) :
    Runs ⟨l, calls⟩
      ⟨(Contended.enter m l).lock,
        rest (RawLock.spins l) (Contended.enter m l).result + calls⟩ := by
  have htries : 0 + Spin.tries (RawLock.spins l) = Spin.tries (RawLock.spins l) := Nat.zero_add _
  have hphase := runs_phase m htries calls l []
  refine .head (.start m l calls) (ReflTransGen.trans hphase ?_)
  unfold Contended.enter
  dsimp only
  generalize Spin.phase (Contended.spinOnce m) (Spin.tries (RawLock.spins l)) 0 (l, []) = x
  generalize RawLock.spins l = e
  obtain ⟨f | won, l', signals⟩ := x
  · dsimp only [spun, rest]
    rw [Multiset.zero_add]
  · cases won with
    | some made =>
      dsimp only [spun]
      exact runs_leave { result := .ok .acquired, lock := l', signals } rfl _
    | none =>
      dsimp only [spun]
      have hmove := Moves.go ⟨e, .spinning m (Spin.tries e)⟩ l' calls
      simp only [go, Nat.lt_irrefl, if_false] at hmove
      refine .head hmove ?_
      exact runs_turn { RawLock.enter m l' with signals := signals ++ (RawLock.enter m l').signals }

end Calls

section Sleepers

variable {κ : Type} [Place W]

def ofSleepers (sleepers : List (Sleeper κ W)) : Multiset (Underway W) :=
  (sleepers.map fun s ↦ (⟨s.estimate, .asleep s.wait⟩ : Underway W) : List (Underway W))

def of (c : Contended L W κ) : Crowd L W := ⟨c.lock, ofSleepers c.sleepers⟩

omit [Place W] in
theorem ofSleepers_append (xs ys : List (Sleeper κ W)) :
    ofSleepers (xs ++ ys) = ofSleepers xs + ofSleepers ys := by
  rw [ofSleepers, List.map_append, ← Multiset.coe_add]
  rfl

omit [Place W] in
theorem ofSleepers_perm {xs ys : List (Sleeper κ W)} (h : xs.Perm ys) :
    ofSleepers xs = ofSleepers ys :=
  Multiset.coe_eq_coe.2 (h.map _)

omit [Place W] in
theorem runs_resume (s : Sleeper κ W) (l : L) (calls : Multiset (Underway W)) :
    Runs ⟨l, ofSleepers [s] + calls⟩
      ⟨(Contended.resume s l).lock, rest s.estimate (Contended.resume s l).result + calls⟩ := by
  have hmove := Moves.go ⟨s.estimate, .asleep s.wait⟩ l calls
  exact .head hmove (runs_turn (RawLock.resume s.wait l))

theorem lock_resumeAll_cons (s : Sleeper κ W) (l : L) (later : List (Sleeper κ W)) :
    (Contended.resumeAll l (s :: later)).lock =
      (Contended.resumeAll (Contended.resume s l).lock later).lock := by
  simp only [Contended.resumeAll]
  rcases (Contended.resume s l).result with f | _ | wait <;> rfl

/-- Which of the woken calls sleep again is what the lock has made of each of them. -/
theorem ofSleepers_resumeAll_cons (s : Sleeper κ W) (l : L) (later : List (Sleeper κ W)) :
    ofSleepers (Contended.resumeAll l (s :: later)).asleep =
      rest s.estimate (Contended.resume s l).result +
        ofSleepers (Contended.resumeAll (Contended.resume s l).lock later).asleep := by
  simp only [Contended.resumeAll]
  rcases (Contended.resume s l).result with f | _ | wait
  · exact (zero_add _).symm
  · exact (zero_add _).symm
  · rfl

theorem runs_resumeAll (l : L) (woken : List (Sleeper κ W)) (calls : Multiset (Underway W)) :
    Runs ⟨l, ofSleepers woken + calls⟩
      ⟨(Contended.resumeAll l woken).lock,
        ofSleepers (Contended.resumeAll l woken).asleep + calls⟩ := by
  induction woken generalizing l calls with
  | nil => exact .refl
  | cons s later ih =>
    have hfirst := runs_resume s l (ofSleepers later + calls)
    have hlater := ih (Contended.resume s l).lock
      (rest s.estimate (Contended.resume s l).result + calls)
    have hswap : ∀ later : Multiset (Underway W),
        later + (rest s.estimate (Contended.resume s l).result + calls) =
          rest s.estimate (Contended.resume s l).result + later + calls :=
      fun _ ↦ by rw [← add_assoc, add_comm (_ : Multiset _) (rest _ _)]
    rw [← add_assoc, ← ofSleepers_append, List.singleton_append, ← add_assoc] at hfirst
    rw [hswap, hswap, ← ofSleepers_resumeAll_cons, ← lock_resumeAll_cons] at hlater
    exact hfirst.trans hlater

theorem runs_settle {α : Type} (step : Step L F α) (sleepers : List (Sleeper κ W))
    (calls : Multiset (Underway W)) :
    Runs ⟨step.lock, ofSleepers sleepers + calls⟩
      ⟨(Contended.settle step sleepers).lock,
        ofSleepers (Contended.settle step sleepers).asleep + calls⟩ := by
  have hwake := ofSleepers_perm (Contended.wake_perm sleepers step.signals)
  have hrun := runs_resumeAll step.lock (Contended.wake sleepers step.signals).1
    (ofSleepers (Contended.wake sleepers step.signals).2 + calls)
  rw [← add_assoc, ← ofSleepers_append, hwake, add_left_comm, ← add_assoc,
    ← ofSleepers_append] at hrun
  exact hrun

theorem runs_request (r : Request) (c : Contended L W κ) :
    Runs (of c) (of (c.request (F := F) r).after) := by
  have hsettle := runs_settle (RawLock.request r c.lock) c.sleepers 0
  rw [add_zero, add_zero] at hsettle
  exact .head (.request r c.lock (ofSleepers c.sleepers)) hsettle

theorem of_call (caller : κ) (m : Mode) (c : Contended L W κ) :
    let step := Contended.enter m c.lock
    let run := Contended.settle step c.sleepers
    of (c.call (F := F) caller m).after =
      ⟨run.lock, ofSleepers run.asleep + rest (RawLock.spins c.lock) step.result⟩ := by
  unfold Contended.call
  generalize Contended.enter m c.lock = step
  simp only [of, ofSleepers_append]
  rcases step.result with f | _ | wait <;> rfl

theorem runs_call (caller : κ) (m : Mode) (c : Contended L W κ) :
    Runs (of c) (of (c.call (F := F) caller m).after) := by
  have henter := runs_enter m c.lock (ofSleepers c.sleepers)
  have hsettle := runs_settle (Contended.enter m c.lock) c.sleepers
    (rest (RawLock.spins c.lock) (Contended.enter m c.lock).result)
  rw [add_comm] at henter
  rw [of_call]
  exact henter.trans hsettle

theorem runs_serve (d : Demand κ) (c : Contended L W κ) :
    Runs (of c) (of (c.serve (F := F) d).after) := by
  cases d with
  | call caller m => exact runs_call caller m c
  | request r => exact runs_request r c

end Sleepers

section Situations

variable [Place W] {s t : Situation L W} {move : Situation.Move L W F}

omit [RawLock L W F] [Place W] in
theorem of_perm {κ : Type} {c : Contended L W κ} {sleepers : List (Sleeper κ W)}
    (hp : sleepers.Perm c.sleepers) : of { c with sleepers } = of c := by
  rw [of, of, ofSleepers_perm hp]

/-- One operation is many moves: a woken call goes on within the operation that woke it. -/
theorem runs_of_step (h : Situation.Step s move t) : Runs (of s.calls) (of t.calls) := by
  cases hd : s.guarded.demand? move.op with
  | none =>
    obtain ⟨sleepers, hp, hcalls, -⟩ := h.denied hd
    rw [hcalls, of_perm hp]
    exact .refl
  | some d =>
    obtain ⟨sleepers, hp, out, hout, -, hserved, hfails⟩ := h.demands hd
    have hserve := runs_serve d { s.calls with sleepers }
    rw [of_perm hp, ← hout] at hserve
    refine ReflTransGen.trans hserve ?_
    cases hreply : out.reply with
    | fault f =>
      obtain ⟨-, -, ⟨hcalls, -⟩ | ⟨m, -, hcalls, -⟩⟩ := hfails f hreply
      · rw [hcalls]
      · rw [hcalls]
        exact runs_request (.unlock m) out.after
    | _ => rw [(hserved (by rw [hreply]; rfl)).1]

theorem runs_of_run {legal : Situation L W → Situation.Move L W F → Situation L W → Prop}
    {moves : List (Situation.Move L W F)} (h : Situation.Run legal s moves t) :
    Runs (of s.calls) (of t.calls) := by
  induction h with
  | nil => exact .refl
  | cons hstep _ _ ih => exact .trans (runs_of_step hstep) ih

end Situations

end Crowd

end SyncKit
