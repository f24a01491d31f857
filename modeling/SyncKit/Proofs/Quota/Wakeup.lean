import SyncKit.Proofs.Lock.Release
import SyncKit.Proofs.Quota.Conduct

namespace SyncKit.QuotaLock

section Teardown

variable {h : Holds} {c : Contended QuotaLock Mode Caller}

theorem Steady.destroy_eq_ok_iff (hs : Steady h c) :
    c.lock.destroy = .ok () ↔ h.total = 0 ∧ c.sleepers = [] := by
  have hread : c.lock.readersWaiting = 0 ↔ c.sleeping .read = 0 :=
    hs.tallied.waiting_eq_zero_iff (m := .read)
  have hwrite : c.lock.writersWaiting = 0 ↔ c.sleeping .write = 0 :=
    hs.tallied.waiting_eq_zero_iff (m := .write)
  have hlen := c.length_sleepers
  have hidle : (c.lock.active = 0 ∧ c.lock.readersWaiting = 0 ∧ c.lock.writersWaiting = 0) ↔
      h.total = 0 ∧ c.sleepers = [] := by
    rw [hs.tallied.active_eq_zero_iff, hread, hwrite, ← List.length_eq_zero_iff, hlen]
    omega
  rw [destroy, ← hidle]
  split
  · next h => exact iff_of_true rfl h
  · next h => exact iff_of_false (fun hok ↦ by cases hok) h

end Teardown

theorem releasable_steady : Situation.Releasable (F := Fault) Steady where
  perm := fun hs hp ↦ hs.perm hp
  unlock := fun hs hpos ↦ by
    obtain ⟨hreply, ⟨_, -, ho⟩, hsteady⟩ := hs.unlock hpos
    exact ⟨hreply, ho.granted, ho.conserved, hsteady⟩

variable {s : Situation QuotaLock Mode} {moves : List (Situation.Move QuotaLock Mode Fault)}

/-- Nobody sleeps on a free lock, so giving back what is out, in any order, brings every sleeper
back with the lock, and the lock can be torn down exactly when nothing is out and nobody sleeps. -/
theorem nobody_left_asleep (q : Quotas)
    (hrun : Situation.Run Uncrowded (Situation.fresh (QuotaLock.ofQuotas q)) moves s)
    (hfew : Situation.grants moves < 2 ^ 32) :
    let c := s.calls
    let h := s.holds
    let teardown := (s.guarded.perform (F := Fault) .destroy).answer
    (c.lock.active = 0 → c.sleepers = []) ∧
      (∀ releases t, Situation.Run (F := Fault) Situation.Releasing s releases t →
        (∀ move ∈ releases, move.report.faultless = true) ∧
          releases.length + (t.holds.total + t.calls.sleepers.length) =
            h.total + c.sleepers.length ∧
          (Situation.returns releases ++ t.calls.sleepers.map Sleeper.granted).Perm
            (c.sleepers.map Sleeper.granted) ∧
          (0 < t.holds.total → ∃ (move : Situation.Move QuotaLock Mode Fault) (u : _),
            Situation.Step t move u ∧ Situation.Releasing t move u) ∧
          (t.holds.total = 0 → t.calls.sleepers = [])) ∧
      (teardown = .reply .done ↔ h.total = 0 ∧ c.sleepers = []) ∧
      (¬ (h.total = 0 ∧ c.sleepers = []) → ∃ f, teardown = .reply (.fault f)) := by
  obtain ⟨hs, -⟩ := steady_run q hrun hfew
  refine ⟨fun hfree ↦ (hs.idle (hs.tallied.active_eq_zero_iff.1 hfree)).2,
    fun releases t hreleases ↦ ?_, Guarded.teardown_iff hs.destroy_eq_ok_iff⟩
  obtain ⟨hlast, hr⟩ := releasable_steady.run hs hreleases
  exact ⟨hr.faultless, hr.count, hr.conserved, Situation.exists_releasing,
    fun hfree ↦ (hlast.idle hfree).2⟩

theorem nobody_left_asleep_three :
    ∃ moves s releases t,
      Situation.Run Uncrowded (Situation.fresh (QuotaLock.ofQuotas {})) moves s ∧
      s.calls.sleepers.length = 2 ∧
      Situation.Run (F := Fault) Situation.Releasing s releases t ∧ releases.length = 3 ∧
      t.calls.sleepers = [] ∧
      ∃ f, (s.guarded.perform (F := Fault) .destroy).answer = .reply (.fault f) := by
  -- A reader and a writer sleep behind a writer, after a release that is misuse.
  obtain ⟨moves, s, releases, t, hrun, hgrants, hholds, hlen, hreleases, hcount⟩ :
      ∃ moves s releases t,
        Situation.Run Uncrowded (Situation.fresh (QuotaLock.ofQuotas {})) moves s ∧
        Situation.grants moves = 1 ∧ s.holds = ⟨0, 1⟩ ∧ s.calls.sleepers.length = 2 ∧
        Situation.Run (F := Fault) Situation.Releasing s releases t ∧ releases.length = 3 :=
    ⟨_, _, _, _,
      .cons (.intro (.lock .write "first") (.refl _) rfl) (by decide) <|
      .cons (.intro (.request (.unlock .read)) (.refl _) rfl) (by decide) <|
      .cons (.intro (.lock .read "second") (.refl _) rfl) (by decide) <|
      .cons (.intro (.lock .write "third") (.refl _) rfl) (by decide) <|
      .nil _, rfl, rfl, rfl,
      .cons (.intro (.request (.unlock .write)) (.refl _) rfl) ⟨.write, rfl, by decide⟩ <|
      .cons (.intro (.request (.unlock .write)) (.refl _) rfl) ⟨.write, rfl, by decide⟩ <|
      .cons (.intro (.request (.unlock .read)) (.refl _) rfl) ⟨.read, rfl, by decide⟩ <|
      .nil _, rfl⟩
  obtain ⟨-, hreturn, -, hteardown⟩ := nobody_left_asleep {} hrun (by rw [hgrants]; decide)
  obtain ⟨-, hsum, -, -, hnone⟩ := hreturn releases t hreleases
  rw [hcount, hholds, hlen] at hsum
  change 3 + (t.holds.total + _) = 1 + 2 at hsum
  refine ⟨moves, s, releases, t, hrun, hlen, hreleases, hcount, hnone (by omega), hteardown ?_⟩
  rw [hholds]
  exact fun h ↦ absurd h.1 Nat.one_ne_zero

end SyncKit.QuotaLock
