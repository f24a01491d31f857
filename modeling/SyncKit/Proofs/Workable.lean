import SyncKit.Proofs.Lock.Overlap
import SyncKit.Proofs.Quota.Tallied
import SyncKit.Proofs.Ticket.Untouched

namespace SyncKit

section Workable

open Spin

/-- An estimate that a call can start from: it allows some tries, and whatever they come to, the
estimate can be moved. -/
structure Spin.Workable (e : Int32) : Prop where
  range : 0 ≤ e.toInt ∧ e.toInt ≤ 94
  budget : (budget e).toInt = min (2 * e.toInt + 10) 100 ∧
    10 ≤ (budget e).toInt ∧ (budget e).toInt ≤ 100
  moves : ∀ answers, ∃ moved, (acquire answers e).estimate = .ok moved

theorem Spin.Settled.workable {e : Int32} (h : Settled e) : Workable e := by
  have hbudget := toInt_budget e
  have htries := tries_bounds h
  refine ⟨h, ?_, fun answers ↦ ?_⟩
  · obtain ⟨hlow, hhigh⟩ := h
    omega
  · obtain ⟨moved, hmoved, -⟩ := next_settled h (spent_bounds h fun _ hwon ↦ firstWon_le hwon)
    exact ⟨moved, by rw [acquire_eq]; exact hmoved⟩

end Workable

class LeavesSpins (L : Type) {W F : Type} [RawLock L W F] : Prop where
  request (r : Request) (l : L) : RawLock.spins (RawLock.request r l).lock = RawLock.spins l
  enter (m : Mode) (l : L) : RawLock.spins (RawLock.enter m l).lock = RawLock.spins l
  resume (wait : W) (l : L) : RawLock.spins (RawLock.resume wait l).lock = RawLock.spins l
  withSpins (l : L) (e : Int32) : RawLock.spins (RawLock.withSpins l e) = e

variable {L W F : Type} [RawLock L W F]

namespace Crowd

structure Sound (u : Underway W) : Prop where
  estimate : Spin.Settled u.estimate
  spent : ∀ s, u.stage = .leaving s → 1 ≤ s.toInt ∧ s.toInt ≤ 101

/-- What every move keeps, whichever estimates were read before it and whichever were overwritten
since. -/
structure Settled (c : Crowd L W) : Prop where
  lock : Spin.Settled (RawLock.spins c.lock)
  calls : ∀ u ∈ c.calls, Sound u

theorem settled_fresh {l : L} (hl : Spin.Settled (RawLock.spins l)) :
    Settled (⟨l, 0⟩ : Crowd L W) :=
  ⟨hl, fun _ h ↦ absurd h (Multiset.notMem_zero _)⟩

theorem settled_singleton {l : L} (hl : Spin.Settled (RawLock.spins l)) {u : Underway W}
    (hu : Sound u) : Settled ⟨l, {u}⟩ :=
  ⟨hl, fun _ h ↦ Multiset.mem_singleton.1 h ▸ hu⟩

theorem settled_turn {l : L} {e : Int32} (hl : Spin.Settled (RawLock.spins l))
    (he : Spin.Settled e) (result : Except F (Turn W)) : Settled (turn e l result) := by
  rcases result with f | _ | wait
  · exact settled_fresh hl
  · refine settled_singleton hl ⟨he, fun s hs ↦ ?_⟩
    obtain rfl := Stage.leaving.inj hs
    exact Spin.spent_none_bounds he
  · exact settled_singleton hl ⟨he, fun _ hs ↦ by cases hs⟩

variable [LeavesSpins L]

theorem settled_go {l : L} {u : Underway W} (hl : Spin.Settled (RawLock.spins l)) (hu : Sound u) :
    Settled (go l u) := by
  obtain ⟨e, stage⟩ := u
  have he : Spin.Settled e := hu.estimate
  cases stage with
  | spinning m made =>
    simp only [go]
    split
    · next hmade =>
      have hrequest := hl
      rw [← LeavesSpins.request (.tryLock m) l] at hrequest
      split
      · refine settled_singleton hrequest ⟨he, fun s hs ↦ ?_⟩
        obtain rfl := Stage.leaving.inj hs
        refine Spin.spent_bounds he fun k hk ↦ ?_
        cases hk
        exact ⟨Nat.succ_pos made, hmade⟩
      · exact settled_singleton hrequest ⟨he, fun _ hs ↦ by cases hs⟩
      · exact settled_fresh hrequest
    · exact settled_turn (by rwa [LeavesSpins.enter]) he _
  | asleep wait => exact settled_turn (by rwa [LeavesSpins.resume]) he _
  | leaving s =>
    obtain ⟨moved, hnext, hmoved⟩ := Spin.next_settled he (hu.spent s rfl)
    simp only [go, hnext]
    exact settled_fresh (by rwa [LeavesSpins.withSpins])

theorem Moves.settled {c d : Crowd L W} (h : Moves c d) (hc : Settled c) : Settled d := by
  cases h with
  | request r l calls => exact ⟨by rw [LeavesSpins.request]; exact hc.lock, hc.calls⟩
  | start m l calls =>
    refine ⟨hc.lock, fun u hu ↦ ?_⟩
    obtain rfl | hu := Multiset.mem_cons.1 hu
    · exact ⟨hc.lock, fun _ hs ↦ by cases hs⟩
    · exact hc.calls u hu
  | go u l calls =>
    have hgo := settled_go hc.lock (hc.calls u (Multiset.mem_cons_self u calls))
    refine ⟨hgo.lock, fun v hv ↦ ?_⟩
    obtain hv | hv := Multiset.mem_add.1 hv
    · exact hgo.calls v hv
    · exact hc.calls v (Multiset.mem_cons_of_mem hv)

theorem Runs.settled {c d : Crowd L W} (h : Runs c d) (hc : Settled c) : Settled d := by
  induction h with
  | refl => exact hc
  | tail _ hmove ih => exact hmove.settled ih

end Crowd

namespace Contended

/-- How a blocking call would end its first turn if it had no estimate to move. -/
def bare (m : Mode) (l : L) : Except F (Turn W) :=
  match Spin.phase (spinOnce m) (Spin.tries (RawLock.spins l)) 0 (l, []) with
  | (.ok (some _), _) => .ok .acquired
  | (.ok none, l, _) => (RawLock.enter m l).result
  | (.error f, _) => .error f

theorem result_conclude {e s : Int32} (he : Spin.Settled e) (hs : 1 ≤ s.toInt ∧ s.toInt ≤ 101)
    (step : Step L F (Turn W)) : (conclude e s step).result = step.result := by
  obtain ⟨moved, hnext, -⟩ := Spin.next_settled he hs
  simp only [conclude, hnext]
  split <;> rfl

theorem result_resume {κ : Type} {s : Sleeper κ W} (hs : Spin.Settled s.estimate) (l : L) :
    (resume s l).result = (RawLock.resume s.wait l).result :=
  result_conclude hs (Spin.spent_none_bounds hs) _

theorem result_enter {l : L} (hl : Spin.Settled (RawLock.spins l)) (m : Mode) :
    (enter m l).result = bare m l := by
  unfold enter bare
  dsimp only
  generalize hphase : Spin.phase (spinOnce m) (Spin.tries (RawLock.spins l)) 0 (l, []) = x
  obtain ⟨f | won, l', signals⟩ := x
  · rfl
  · cases won with
    | none => exact result_conclude hl (Spin.spent_none_bounds hl) _
    | some made =>
      refine result_conclude hl (Spin.spent_bounds hl fun k hk ↦ ?_) _
      cases hk
      have hmade := Spin.made_of_phase hphase
      omega

structure Unaffected {κ : Type} (c : Contended L W κ) : Prop where
  enter : ∀ m, (Contended.enter m c.lock).result = bare m c.lock
  resume : ∀ s ∈ c.sleepers, ∀ l : L,
    (Contended.resume s l).result = (RawLock.resume s.wait l).result

end Contended

namespace Crowd

/-- The estimates are in range, the lock's and those that calls go by, and no call that leaves can
fault over its own. -/
structure Workable (c : Crowd L W) : Prop where
  lock : Spin.Workable (RawLock.spins c.lock)
  calls : ∀ u ∈ c.calls, Spin.Workable u.estimate
  leaving : ∀ u ∈ c.calls, ∀ s, u.stage = .leaving s → ∃ moved, Spin.next u.estimate s = .ok moved

theorem Settled.workable {c : Crowd L W} (hc : Settled c) : Workable c where
  lock := hc.lock.workable
  calls u hu := (hc.calls u hu).estimate.workable
  leaving u hu s hs := by
    obtain ⟨moved, hnext, -⟩ :=
      Spin.next_settled (hc.calls u hu).estimate ((hc.calls u hu).spent s hs)
    exact ⟨moved, hnext⟩

theorem Settled.unaffected {κ : Type} {c : Contended L W κ} (hc : Settled (of c)) : c.Unaffected where
  enter := Contended.result_enter hc.lock
  resume s hs l := by
    have hmem : (⟨s.estimate, .asleep s.wait⟩ : Underway W) ∈ (of c).calls :=
      Multiset.mem_coe.2 (List.mem_map_of_mem hs)
    exact Contended.result_resume (hc.calls _ hmem).estimate l

end Crowd

instance : LeavesSpins TicketLock where
  request r l := (TicketLock.untouched_request r l).spins
  enter
    | .read, l => (TicketLock.untouched_enter_read l).spins
    | .write, l => (TicketLock.untouched_awaitTurn l.requests _).spins
  resume wait l := (TicketLock.untouched_resume wait l).spins
  withSpins _ _ := rfl

namespace QuotaLock

theorem spins_countGrant (l : QuotaLock) : l.countGrant.lock.spins = l.spins := by
  unfold countGrant
  split <;> rfl

theorem spins_grant (m : Mode) (l : QuotaLock) : (l.grant m).lock.spins = l.spins := by
  cases m with
  | read =>
    simp only [grant]
    split
    · exact spins_countGrant _
    · rfl
  | write => exact spins_countGrant _

theorem spins_sleep (m : Mode) (l : QuotaLock) : (l.sleep m).lock.spins = l.spins := by
  unfold sleep
  split
  · exact spins_withWaiting m _ l
  · rfl

theorem spins_bid (m : Mode) (mayWait yields : Bool) (l : QuotaLock) :
    (l.bid m mayWait yields).lock.spins = l.spins := by
  unfold bid
  split
  · exact spins_grant m l
  · split
    · exact spins_sleep m l
    · rfl

theorem spins_handOff (l : QuotaLock) : l.handOff.lock.spins = l.spins := by
  unfold handOff
  split
  · dsimp only
    split <;> rfl
  · split
    · split <;> rfl
    · rfl
  · rfl

theorem spins_request (r : Request) (l : QuotaLock) : (request r l).lock.spins = l.spins := by
  cases r with
  | tryLock m => exact spins_bid m false _ l
  | unlock m =>
    simp only [request, unlock]
    split
    · rfl
    · split
      · rfl
      · exact spins_handOff _
  | upgrade =>
    simp only [request, upgrade]
    split
    · rfl
    · split <;> rfl
  | downgrade =>
    simp only [request, downgrade]
    split <;> rfl

instance : LeavesSpins QuotaLock where
  request := spins_request
  enter m l := spins_bid m true _ l
  resume m l := by
    change (resume m l).lock.spins = l.spins
    unfold resume
    split
    · exact (spins_bid m true false _).trans (spins_withWaiting m _ l)
    · rfl
  withSpins _ _ := rfl

end QuotaLock

section Fresh

variable (q : Quotas)

theorem TicketLock.settled_fresh : Crowd.Settled ⟨(TicketLock.ofQuotas q).1, 0⟩ :=
  Crowd.settled_fresh ⟨Int.le_refl 0, show (0 : Int) ≤ 94 by decide⟩

theorem QuotaLock.settled_fresh : Crowd.Settled ⟨QuotaLock.ofQuotas q, 0⟩ :=
  Crowd.settled_fresh ⟨Int.le_refl 0, show (0 : Int) ≤ 94 by decide⟩

end Fresh

/-- Calls may go by estimates that were read long ago and leave new ones over each other's in any
order: no estimate of a lock gets out of range, and none makes a call fault. Everything that
happens to a lock, one operation after the other, is such a run. -/
theorem estimates_workable (q : Quotas) :
    (∀ c, Crowd.Runs ⟨(TicketLock.ofQuotas q).1, 0⟩ c → c.Workable) ∧
    (∀ c, Crowd.Runs ⟨QuotaLock.ofQuotas q, 0⟩ c → c.Workable) ∧
    (∀ moves s,
      Situation.Run (fun _ _ _ ↦ True) (Situation.fresh (TicketLock.ofQuotas q).1) moves s →
      Crowd.Runs ⟨(TicketLock.ofQuotas q).1, 0⟩ (Crowd.of s.calls) ∧ s.calls.Unaffected) ∧
    (∀ moves s,
      Situation.Run (fun _ _ _ ↦ True) (Situation.fresh (QuotaLock.ofQuotas q)) moves s →
      Crowd.Runs ⟨QuotaLock.ofQuotas q, 0⟩ (Crowd.of s.calls) ∧ s.calls.Unaffected) := by
  refine ⟨fun c hruns ↦ ?_, fun c hruns ↦ ?_, fun moves s hrun ↦ ?_, fun moves s hrun ↦ ?_⟩
  · exact (hruns.settled (TicketLock.settled_fresh q)).workable
  · exact (hruns.settled (QuotaLock.settled_fresh q)).workable
  · have hruns := Crowd.runs_of_run hrun
    exact ⟨hruns, (Crowd.Runs.settled hruns (TicketLock.settled_fresh q)).unaffected⟩
  · have hruns := Crowd.runs_of_run hrun
    exact ⟨hruns, (Crowd.Runs.settled hruns (QuotaLock.settled_fresh q)).unaffected⟩

/-- On each lock a writer still sleeps with the estimate of an idle lock when another one has left a
higher estimate. A reader has yet to try when another one, with the same estimate, is leaving. -/
theorem estimates_workable_stale :
    (∃ moves s,
      Situation.Run (fun _ _ _ ↦ True) (Situation.fresh (TicketLock.ofQuotas {}).1) moves s ∧
        s.calls.lock.spins = 1 ∧ s.calls.sleepers.map (·.estimate) = [0] ∧
        (Crowd.of s.calls).Workable ∧ s.calls.Unaffected) ∧
    (∃ moves s,
      Situation.Run (fun _ _ _ ↦ True) (Situation.fresh (QuotaLock.ofQuotas {})) moves s ∧
        s.calls.lock.spins = 1 ∧ s.calls.sleepers.map (·.estimate) = [0] ∧
        (Crowd.of s.calls).Workable ∧ s.calls.Unaffected) ∧
    (∃ l, Crowd.Runs ⟨(TicketLock.ofQuotas {}).1, 0⟩ ⟨l, {⟨0, .leaving 1⟩, ⟨0, .spinning .read 0⟩}⟩ ∧
      Crowd.Workable ⟨l, {⟨0, .leaving 1⟩, ⟨0, .spinning .read 0⟩}⟩) ∧
    ∃ l, Crowd.Runs ⟨QuotaLock.ofQuotas {}, 0⟩ ⟨l, {⟨0, .leaving 1⟩, ⟨0, .spinning .read 0⟩}⟩ ∧
      Crowd.Workable ⟨l, {⟨0, .leaving 1⟩, ⟨0, .spinning .read 0⟩}⟩ := by
  refine ⟨?_, ?_, ?_, ?_⟩
  · obtain ⟨moves, s, hrun, hspins, hasleep⟩ :
        ∃ moves s, Situation.Run (fun _ _ _ ↦ True)
          (Situation.fresh (TicketLock.ofQuotas {}).1) moves s ∧
          s.calls.lock.spins = 1 ∧ s.calls.sleepers.map (·.estimate) = [0] :=
      ⟨_, _,
        .cons (.intro (.lock .write "first") (.refl _) rfl) trivial <|
        .cons (.intro (.lock .write "second") (.refl _) rfl) trivial <|
        .cons (.intro (.lock .write "third") (.refl _) rfl) trivial <|
        .cons (.intro (.request (.unlock .write)) (.refl _) rfl) trivial <|
        .nil _, by decide +kernel, by decide +kernel⟩
    obtain ⟨hworkable, -, hruns, -⟩ := estimates_workable {}
    obtain ⟨hcrowd, hunaffected⟩ := hruns moves s hrun
    exact ⟨moves, s, hrun, hspins, hasleep, hworkable _ hcrowd, hunaffected⟩
  · obtain ⟨moves, s, hrun, hspins, hasleep⟩ :
        ∃ moves s, Situation.Run (fun _ _ _ ↦ True)
          (Situation.fresh (QuotaLock.ofQuotas {})) moves s ∧
          s.calls.lock.spins = 1 ∧ s.calls.sleepers.map (·.estimate) = [0] :=
      ⟨_, _,
        .cons (.intro (.lock .write "first") (.refl _) rfl) trivial <|
        .cons (.intro (.lock .write "second") (.refl _) rfl) trivial <|
        .cons (.intro (.lock .write "third") (.refl _) rfl) trivial <|
        .cons (.intro (.request (.unlock .write)) (.refl _) rfl) trivial <|
        .nil _, by decide +kernel, by decide +kernel⟩
    obtain ⟨-, hworkable, -, hruns⟩ := estimates_workable {}
    obtain ⟨hcrowd, hunaffected⟩ := hruns moves s hrun
    exact ⟨moves, s, hrun, hspins, hasleep, hworkable _ hcrowd, hunaffected⟩
  · obtain ⟨l, hruns⟩ : ∃ l, Crowd.Runs ⟨(TicketLock.ofQuotas {}).1, 0⟩
        ⟨l, {⟨0, .leaving 1⟩, ⟨0, .spinning .read 0⟩}⟩ :=
      ⟨_, .head (.start .read _ _) <| .head (.start .read _ _) <|
        .single (.go ⟨0, .spinning .read 0⟩ _ _)⟩
    exact ⟨l, hruns, (estimates_workable {}).1 _ hruns⟩
  · obtain ⟨l, hruns⟩ : ∃ l, Crowd.Runs ⟨QuotaLock.ofQuotas {}, 0⟩
        ⟨l, {⟨0, .leaving 1⟩, ⟨0, .spinning .read 0⟩}⟩ :=
      ⟨_, .head (.start .read _ _) <| .head (.start .read _ _) <|
        .single (.go ⟨0, .spinning .read 0⟩ _ _)⟩
    exact ⟨l, hruns, (estimates_workable {}).2.1 _ hruns⟩

end SyncKit
