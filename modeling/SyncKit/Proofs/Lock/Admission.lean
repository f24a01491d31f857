import SyncKit.Proofs.Lock.Grants
import SyncKit.Proofs.Lock.Waking

namespace SyncKit

namespace Returned

variable {κ F : Type}

def modes (returned : List (Returned κ F)) : List Mode :=
  (returned.filter (·.granted)).map (·.mode)

theorem modes_map_granted {W : Type} [Place W] (ws : List (Sleeper κ W)) :
    modes (F := F) (ws.map Sleeper.granted) = ws.map (·.mode) := by
  induction ws with
  | nil => rfl
  | cons s ws ih => exact congrArg (s.mode :: ·) ih

end Returned

/-- The modes in which a demand let callers in: first whoever made it, then the calls that came
back. A conversion lets nobody in. -/
def Outcome.admitted {L W F κ : Type} (d : Demand κ) (out : Outcome L W F κ) : List Mode :=
  (if out.reply.met then d.seeks.toList else []) ++ Returned.modes out.returned

theorem Outcome.admitted_of_seeks_eq_none {L W F κ : Type} {d : Demand κ} (hd : d.seeks = none)
    (out : Outcome L W F κ) : out.admitted d = Returned.modes out.returned := by
  simp [admitted, hd]

namespace Guarded

variable {L W F : Type} [Place W] [RawLock L W F]

structure Echoes (out : Outcome L W F Caller) (r : Report F (Guarded L W)) : Prop where
  answer : r.answer = .reply out.reply
  calls : r.after.calls = out.after
  returned : r.returned = out.returned

omit [Place W] [RawLock L W F] in
theorem echoes_absorb (g : Guarded L W) (out : Outcome L W F Caller) :
    Echoes out (g.absorb out (.reply out.reply)) := ⟨rfl, rfl, rfl⟩

omit [Place W] [RawLock L W F] in
theorem echoes_seat (g : Guarded L W) (slot : String) (m : Mode) (out : Outcome L W F Caller) :
    Echoes out (g.seat slot m out) := by
  unfold seat
  split
  · next h => exact ⟨congrArg Answer.reply h.symm, rfl, rfl⟩
  · exact echoes_absorb g out

def Operation.converts : Operation → Bool
  | .upgrade _ => true
  | .downgrade _ => true
  | _ => false

omit [Place W] [RawLock L W F] in
theorem converts_of_demand {g : Guarded L W} {op : Operation} {d : Demand Caller}
    (hd : g.demand? op = some d) (hnone : convertsFrom d = none) : op.converts = false := by
  cases asks_of_demand hd with
  | upgrade _ => cases hnone
  | downgrade _ => cases hnone
  | _ => rfl

theorem perform_echoes {g : Guarded L W} {op : Operation} {d : Demand Caller}
    (hd : g.demand? op = some d) (hc : op.converts = false) :
    ∃ r, g.perform op = kept r ∧ Echoes (g.calls.serve (F := F) d) r := by
  cases makes_of_demand hd with
  | lock m label => exact ⟨_, rfl, echoes_absorb g _⟩
  | request r => exact ⟨_, rfl, echoes_absorb g _⟩
  | acquire m hfree => exact ⟨_, congrArg kept (acquire_of_free m hfree), echoes_seat g _ m _⟩
  | tryAcquire m hfree =>
    exact ⟨_, congrArg kept (tryAcquire_of_free m hfree), echoes_seat g _ m _⟩
  | upgrade _ => cases hc
  | downgrade _ => cases hc
  | drop hs => exact ⟨_, congrArg kept (drop_of_guard hs), echoes_absorb (g.forget _) _⟩

end Guarded

namespace Situation

variable {L W F : Type} [Place W] [RawLock L W F] {s t : Situation L W} {move : Move L W F}

def Move.admitted (move : Move L W F) : List Mode :=
  (if move.report.answer.met then move.op.seeks.toList else []) ++
    Returned.modes move.report.returned

def admitted (moves : List (Move L W F)) : List Mode := moves.flatMap Move.admitted

omit [Place W] [RawLock L W F] in
theorem admitted_cons (move : Move L W F) (later : List (Move L W F)) :
    admitted (move :: later) = move.admitted ++ admitted later := List.flatMap_cons

omit [Place W] [RawLock L W F] in
theorem Move.admitted_of_demand {d : Demand Caller} {out : Outcome L W F Caller}
    (hd : s.guarded.demand? move.op = some d) (hmet : move.report.answer.met = out.reply.met)
    (hreturned : move.report.returned = out.returned) : move.admitted = out.admitted d := by
  rw [admitted, Outcome.admitted, Guarded.seeks_of_demand hd, hmet, hreturned]

omit [Place W] [RawLock L W F] in
theorem Move.admitted_of_unmet (hmet : move.report.answer.met = false)
    (hreturned : move.report.returned = []) : move.admitted = [] := by
  rw [admitted, hmet, hreturned]
  rfl

omit [Place W] [RawLock L W F] in
theorem grants_append (moves later : List (Move L W F)) :
    grants (moves ++ later) = grants moves + grants later := by
  induction moves with
  | nil => exact (Nat.zero_add _).symm
  | cons move moves ih => simp only [List.cons_append, grants, ih, Nat.add_assoc]

theorem Step.after_eq (h : Step s move t) : move.report.after = some t.guarded := by
  cases h with
  | intro op hp hg => exact hg

theorem Step.echoes (h : Step s move t) {d : Demand Caller}
    (hd : s.guarded.demand? move.op = some d) (hc : move.op.converts = false) :
    ∃ sleepers, sleepers.Perm s.calls.sleepers ∧
      ∃ out : Outcome L W F Caller, out = Contended.serve { s.calls with sleepers } d ∧
        move.report.answer = .reply out.reply ∧ t.calls = out.after ∧
        t.holds = out.settle d s.holds ∧ move.report.returned = out.returned := by
  cases h with
  | @intro sleepers g' op hp hg =>
    have hd' := (Guarded.demand?_withSleepers hp op).trans hd
    obtain ⟨r, hr, he⟩ := Guarded.perform_echoes (F := F) hd' hc
    rw [hr] at hg ⊢
    cases hg
    refine ⟨sleepers, hp, _, rfl, he.answer, he.calls, ?_, he.returned⟩
    simp only [Guarded.Report.settle, Outcome.settle, hd', Guarded.kept, he.answer, he.returned]
    rfl

theorem Step.attends (h : Step s move t) {d : Demand Caller}
    (hd : s.guarded.demand? move.op = some d) (hs : d.seeks.isSome = true) :
    ∃ sleepers, sleepers.Perm s.calls.sleepers ∧
      ∃ out : Outcome L W F Caller, out = Contended.serve { s.calls with sleepers } d ∧
        move.report.answer = .reply out.reply ∧ t.calls = out.after ∧
        t.holds = out.settle d s.holds ∧ move.report.returned = out.returned := by
  refine h.echoes hd (Guarded.converts_of_demand hd ?_)
  cases d with
  | call caller m => rfl
  | request r => cases r <;> first | rfl | cases hs

end Situation

end SyncKit
