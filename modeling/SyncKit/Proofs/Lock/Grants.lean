import Mathlib.Algebra.Group.Nat.Defs
import SyncKit.Proofs.Lock.Run

namespace SyncKit

def Demand.seeks {κ : Type} : Demand κ → Option Mode
  | .call _ m => some m
  | .request (.tryLock m) => some m
  | .request _ => none

theorem Holds.met_of_seeks {κ : Type} {d : Demand κ} {m : Mode} (hd : d.seeks = some m)
    (h : Holds) : h.met d = h.take m := by
  cases d with
  | call caller n => cases hd; rfl
  | request r => cases r <;> cases hd; rfl

def Demand.writes {κ : Type} : Demand κ → Bool
  | .call _ m => m == .write
  | .request (.tryLock m) => m == .write
  | .request .upgrade => true
  | .request _ => false

/-- What a request gives back or converts is there. -/
def Holds.Permits (h : Holds) : Request → Prop
  | .tryLock _ => True
  | .unlock m => 0 < h.of m
  | .upgrade => 0 < h.reads
  | .downgrade => 0 < h.writes

/-- The grants that a demand led to. One that faults before it is complete counts as well. -/
def Outcome.grants {L W F κ : Type} (d : Demand κ) (out : Outcome L W F κ) : Nat :=
  (if d.seeks.isSome && (out.reply.met || out.reply.faulted) then 1 else 0) + out.returned.length

def Returned.writers {κ F : Type} (returned : List (Returned κ F)) : Nat :=
  returned.countP fun r ↦ r.granted && r.mode == .write

def Outcome.writeGrants {L W F κ : Type} (d : Demand κ) (out : Outcome L W F κ) : Nat :=
  (if d.writes && out.reply.met then 1 else 0) + Returned.writers out.returned

namespace Guarded

def Operation.seeks : Operation → Option Mode
  | .lock m _ => some m
  | .request (.tryLock m) => some m
  | .acquire _ m => some m
  | .tryAcquire _ m => some m
  | _ => none

variable {L W F : Type} [Place W] [RawLock L W F]

def Report.grants {σ : Type} (op : Operation) (r : Report F σ) : Nat :=
  (if op.seeks.isSome && (r.answer.met || r.answer.faulted) then 1 else 0) + r.returned.length

def Operation.writes : Operation → Bool
  | .lock m _ => m == .write
  | .request (.tryLock m) => m == .write
  | .request .upgrade => true
  | .acquire _ m => m == .write
  | .tryAcquire _ m => m == .write
  | .upgrade _ => true
  | _ => false

def Report.writeGrants {σ : Type} (op : Operation) (r : Report F σ) : Nat :=
  (if op.writes && r.answer.met then 1 else 0) + Returned.writers r.returned

inductive Operation.Asks : Operation → Demand Caller → Prop
  | lock (m : Mode) (label : String) : Asks (.lock m label) (.call (.call label) m)
  | request (r : Request) : Asks (.request r) (.request r)
  | acquire (slot : String) (m : Mode) : Asks (.acquire slot m) (.call (.guard slot) m)
  | tryAcquire (slot : String) (m : Mode) : Asks (.tryAcquire slot m) (.request (.tryLock m))
  | upgrade (slot : String) : Asks (.upgrade slot) (.request .upgrade)
  | downgrade (slot : String) : Asks (.downgrade slot) (.request .downgrade)
  | drop (slot : String) (m : Mode) : Asks (.drop slot) (.request (.unlock m))

section Asks

variable {g : Guarded L W} {op : Operation} {d : Demand Caller}

omit [Place W] [RawLock L W F] in
theorem asks_of_demand (hd : g.demand? op = some d) : op.Asks d := by
  cases makes_of_demand hd with
  | lock m label => exact .lock m label
  | request r => exact .request r
  | acquire m _ => exact .acquire _ m
  | tryAcquire m _ => exact .tryAcquire _ m
  | upgrade _ => exact .upgrade _
  | downgrade _ => exact .downgrade _
  | @drop slot guard _ => exact .drop slot guard.mode

omit [Place W] [RawLock L W F] in
theorem seeks_of_demand (hd : g.demand? op = some d) : d.seeks = op.seeks := by
  cases asks_of_demand hd with
  | request r => cases r <;> rfl
  | _ => rfl

omit [Place W] [RawLock L W F] in
theorem writes_of_demand (hd : g.demand? op = some d) : d.writes = op.writes := by
  cases asks_of_demand hd with
  | request r => cases r <;> rfl
  | _ => rfl

end Asks

/-- The mode in which a guard is given back whose conversion faulted. -/
def convertsFrom : Demand Caller → Option Mode
  | .request .upgrade => some .read
  | .request .downgrade => some .write
  | _ => none

structure Fails (d : Demand Caller) (out : Outcome L W F Caller) (f : F)
    (r : Report F (Guarded L W)) : Prop where
  answer : r.answer = .reply (.fault f)
  calls : r.after.calls = out.after ∧ r.returned = out.returned ∨
    ∃ m, convertsFrom d = some m ∧
      r.after.calls = (out.after.request (F := F) (.unlock m)).after ∧
      r.returned = out.returned ++ (out.after.request (F := F) (.unlock m)).returned

theorem fails_absorb (g : Guarded L W) {d : Demand Caller} {out : Outcome L W F Caller} {f : F}
    (hf : out.reply = .fault f) : Fails d out f (g.absorb out (.reply out.reply)) :=
  ⟨congrArg Answer.reply hf, .inl ⟨rfl, rfl⟩⟩

theorem fails_seat (g : Guarded L W) (slot : String) (m : Mode) {d : Demand Caller}
    {out : Outcome L W F Caller} {f : F} (hf : out.reply = .fault f) :
    Fails d out f (g.seat slot m out) := by
  rw [seat_of_not_done (by rw [hf]; nofun)]
  exact fails_absorb g hf

theorem perform_fails {g : Guarded L W} {op : Operation} {d : Demand Caller}
    (hd : g.demand? op = some d) {f : F} (hf : (g.calls.serve d).reply = .fault f) :
    ∃ r, g.perform op = kept r ∧ Fails d (g.calls.serve d) f r := by
  cases makes_of_demand hd with
  | lock m label => exact ⟨_, rfl, fails_absorb g hf⟩
  | request r => exact ⟨_, rfl, fails_absorb g hf⟩
  | acquire m hfree => exact ⟨_, congrArg kept (acquire_of_free m hfree), fails_seat g _ m hf⟩
  | tryAcquire m hfree =>
    exact ⟨_, congrArg kept (tryAcquire_of_free m hfree), fails_seat g _ m hf⟩
  | upgrade hs =>
    have hf' : (g.calls.request (F := F) .upgrade).reply = .fault f := hf
    refine ⟨_, rfl, ?_⟩
    simp only [upgrade, hs, hf']
    exact ⟨rfl, .inr ⟨.read, rfl, rfl, rfl⟩⟩
  | downgrade hs =>
    have hf' : (g.calls.request (F := F) .downgrade).reply = .fault f := hf
    refine ⟨_, rfl, ?_⟩
    simp only [downgrade, hs, hf']
    exact ⟨rfl, .inr ⟨.write, rfl, rfl, rfl⟩⟩
  | drop hs => exact ⟨_, congrArg kept (drop_of_guard hs), fails_absorb (g.forget _) hf⟩

theorem Relays.length_le {g : Guarded L W} {op : Operation} {d : Demand Caller}
    {r : Report F (Guarded L W)} (hrel : Relays (g.calls.serve d) r) (hd : g.demand? op = some d)
    (hr : g.perform op = kept r) :
    (g.calls.serve (F := F) d).returned.length ≤ r.returned.length := by
  cases hreply : (g.calls.serve (F := F) d).reply with
  | fault f =>
    obtain ⟨r', hr', hfail⟩ := perform_fails hd hreply
    have hreturned : (kept r).returned = (kept r').returned :=
      congrArg Report.returned (hr.symm.trans hr')
    change r.returned = r'.returned at hreturned
    rw [hreturned]
    obtain ⟨-, he⟩ | ⟨m, -, -, he⟩ := hfail.calls
    · exact Nat.le_of_eq (congrArg List.length he.symm)
    · rw [he, List.length_append]
      exact Nat.le_add_right _ _
  | _ => exact Nat.le_of_eq (congrArg List.length (hrel.returned (by rw [hreply]; rfl)).symm)

end Guarded

namespace Situation

variable {L W F : Type} [Place W] [RawLock L W F] {s t : Situation L W} {move : Move L W F}

def Move.grants (move : Move L W F) : Nat := move.report.grants move.op

def Move.writeGrants (move : Move L W F) : Nat := move.report.writeGrants move.op

omit [Place W] [RawLock L W F] in
theorem Move.writeGrants_of_demand {d : Demand Caller} {out : Outcome L W F Caller}
    (hd : s.guarded.demand? move.op = some d) (hmet : move.report.answer.met = out.reply.met)
    (hreturned : move.report.returned = out.returned) : move.writeGrants = out.writeGrants d := by
  rw [writeGrants, Guarded.Report.writeGrants, Outcome.writeGrants, Guarded.writes_of_demand hd,
    hmet, hreturned]

omit [Place W] [RawLock L W F] in
theorem Move.writeGrants_of_denied (hmet : move.report.answer.met = false)
    (hreturned : move.report.returned = []) : move.writeGrants = 0 := by
  rw [writeGrants, Guarded.Report.writeGrants, hmet, hreturned, Bool.and_false]
  rfl

/-- How many calls are outstanding while an operation is made: those asleep, and the one that the
operation may be itself. -/
def outstanding (s : Situation L W) (op : Guarded.Operation) : Nat :=
  s.calls.sleepers.length +
    match s.guarded.demand? op with
    | some (.call _ _) => 1
    | _ => 0

theorem Step.demands (h : Step s move t) {d : Demand Caller}
    (hd : s.guarded.demand? move.op = some d) :
    ∃ sleepers, sleepers.Perm s.calls.sleepers ∧
      ∃ out : Outcome L W F Caller, out = Contended.serve { s.calls with sleepers } d ∧
        out.grants d ≤ move.grants ∧
        (out.reply.faulted = false →
          t.calls = out.after ∧ t.holds = out.settle d s.holds ∧
            move.report.returned = out.returned ∧ move.report.answer.met = out.reply.met ∧
            move.report.answer.faulted = false) ∧
        ∀ f, out.reply = .fault f →
          move.report.answer = .reply (.fault f) ∧
            t.holds = Returned.welcome move.report.returned s.holds ∧
            (t.calls = out.after ∧ move.report.returned = out.returned ∨
              ∃ m, Guarded.convertsFrom d = some m ∧
                t.calls = (out.after.request (F := F) (.unlock m)).after ∧
                move.report.returned =
                  out.returned ++ (out.after.request (F := F) (.unlock m)).returned) := by
  cases h with
  | @intro sleepers g' op hp hg =>
    have hd' := (Guarded.demand?_withSleepers hp op).trans hd
    obtain ⟨r, hr, hrel⟩ := Guarded.perform_relays (F := F) hd'
    refine ⟨sleepers, hp, _, rfl, ?_, fun hreply ↦ ?_, fun f hf ↦ ?_⟩
    · rw [Move.grants, Guarded.Report.grants, Outcome.grants, Guarded.seeks_of_demand hd, hr,
        Guarded.kept, hrel.met, hrel.faulted]
      exact Nat.add_le_add_left (hrel.length_le hd' hr) _
    · rw [hr] at hg
      cases hg
      refine ⟨hrel.calls hreply, ?_, ?_, ?_, ?_⟩
      · simp only [Guarded.Report.settle, Outcome.settle, hr, hd', Guarded.kept, hrel.met,
          hrel.returned hreply]
        rfl
      · rw [hr]
        exact hrel.returned hreply
      · rw [hr]
        exact hrel.met
      · rw [hr]
        exact hrel.faulted.trans hreply
    · obtain ⟨r, hr, hfail⟩ := Guarded.perform_fails hd' hf
      rw [hr] at hg
      cases hg
      rw [hr]
      refine ⟨hfail.answer, ?_, hfail.calls⟩
      simp only [Guarded.Report.settle, hd', Guarded.kept, hfail.answer, Guarded.Answer.met,
        Reply.met]
      rfl

def grants : List (Move L W F) → Nat
  | [] => 0
  | move :: later => move.grants + grants later

def writeGrants : List (Move L W F) → Nat
  | [] => 0
  | move :: later => move.writeGrants + writeGrants later

omit [Place W] [RawLock L W F] in
theorem writeGrants_append (moves later : List (Move L W F)) :
    writeGrants (moves ++ later) = writeGrants moves + writeGrants later := by
  induction moves with
  | nil => exact (Nat.zero_add _).symm
  | cons move moves ih => rw [List.cons_append, writeGrants, writeGrants, ih, Nat.add_assoc]

end Situation

end SyncKit
