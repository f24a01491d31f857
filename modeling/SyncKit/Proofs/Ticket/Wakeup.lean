import SyncKit.Proofs.Lock.Release
import SyncKit.Proofs.Ticket.Peace

namespace SyncKit.TicketLock

section Unlock

variable {κ : Type} {h : Holds} {c : Contended TicketLock Wait κ}

theorem Handover.modest {sleepers : List (Sleeper κ Wait)} {returned : List (Returned κ Fault)}
    (ho : Handover h sleepers returned c) (hlen : sleepers.length < 2 ^ 30)
    (hfew : h.reads = 0 ∨ h.reads < 2 ^ 30 ∧ returned = []) :
    Modest (Returned.welcome returned h) c := by
  have hsum := Returned.length_of_conserved ho.conserved
  have hle : (Returned.welcome returned h).reads ≤ h.reads + returned.length :=
    Nat.add_le_add_left List.countP_le_length _
  refine ⟨?_, by omega⟩
  obtain hzero | ⟨hreads, rfl⟩ := hfew
  · omega
  · exact Nat.lt_of_le_of_lt hle hreads

theorem returned_unlockRead (hb : Balanced h c) (hm : Modest h c) (hr : 1 < h.reads) :
    (c.request (.unlock .read)).returned = [] := by
  have hsignals : c.lock.unlockRead.signals = [] := by
    rw [unlockRead_of_held hb hm (Nat.lt_trans Nat.one_pos hr)]
    exact if_neg fun hlast ↦ Nat.ne_of_gt hr hlast.1
  change (Contended.settle c.lock.unlockRead c.sleepers).returned = []
  rw [Contended.settle_of_silent hsignals]

theorem Sound.unlock (hs : Sound h c) {m : Mode} (hpos : 0 < h.of m) :
    let out := c.request (.unlock m)
    out.reply = .done ∧ Handover (h.release m) c.sleepers out.returned out.after ∧
      Modest (Returned.welcome out.returned (h.release m)) out.after := by
  have hle := hs.balanced.writes_le
  have hreads := hs.modest.reads
  cases m with
  | read =>
    obtain ⟨hreply, ho⟩ := hs.unlockRead hpos
    refine ⟨hreply, ho, ho.modest hs.modest.sleepers ?_⟩
    by_cases hone : h.reads = 1
    · exact .inl (Nat.sub_eq_zero_of_le (Nat.le_of_eq hone))
    · change 0 < h.reads at hpos
      exact .inr ⟨Nat.lt_of_le_of_lt (Nat.sub_le _ _) hreads,
        returned_unlockRead hs.balanced hs.modest (by omega)⟩
  | write =>
    have hone : h.writes = 1 := Nat.le_antisymm hle hpos
    obtain ⟨hreply, ho⟩ := hs.unlockWrite hone
    exact ⟨hreply, ho, ho.modest hs.modest.sleepers (.inl (hs.balanced.reads_eq_zero hone))⟩

theorem Sound.sleepers_eq_nil (hs : Sound h c) (hfree : h.total = 0) : c.sleepers = [] := by
  have hwriters := hs.awake.writers
  have hreaders := hs.awake.readers
  have hlen := c.length_sleepers
  rw [Holds.total] at hfree hwriters
  exact List.eq_nil_of_length_eq_zero (by omega)

theorem destroy_eq_ok_iff (hs : Sound h c) :
    c.lock.destroy = .ok () ↔ h.total = 0 ∧ c.sleepers = [] := by
  have hwaiting : c.lock.readersWaiting = 0 ↔ c.sleeping .read = 0 := by
    rw [← UInt32.toNat_inj, hs.balanced.waiting]
    rfl
  have hlen := c.length_sleepers
  have hidle : (c.lock.word = 0 ∧ c.lock.queued = false ∧ c.lock.readersWaiting = 0) ↔
      h.total = 0 ∧ c.sleepers = [] := by
    rw [word_eq_zero_iff hs.balanced hs.modest, hs.balanced.queued_eq hs.modest.sleepers,
      hwaiting, decide_eq_false_iff_not, ← List.length_eq_zero_iff, hlen, Holds.total]
    omega
  rw [destroy, ← hidle]
  split
  · next h => exact iff_of_true rfl h
  · next h => exact iff_of_false (fun hok ↦ by cases hok) h

end Unlock

theorem releasable_sound : Situation.Releasable (F := Fault) Sound where
  perm := fun hs hp ↦ hs.perm hp
  unlock := fun hs hpos ↦ by
    obtain ⟨hreply, ho, hmodest⟩ := hs.unlock hpos
    exact ⟨hreply, ho.granted, ho.conserved, ho.balanced, ho.awake, hmodest⟩

variable {s : Situation TicketLock Wait} {moves : List (Situation.Move TicketLock Wait Fault)}

/-- Nobody sleeps on a free lock, nor in front of an open door: giving back what is out, in any
order, brings every sleeper back with the lock, and the lock can be torn down exactly when nothing
is out and nobody sleeps. -/
theorem sleepers_return (q : Quotas)
    (hrun : Situation.Run Peaceful (Situation.fresh (TicketLock.ofQuotas q).1) moves s) :
    let c := s.calls
    let h := s.holds
    let teardown := (s.guarded.perform (F := Fault) .destroy).answer
    (0 < c.sleeping .write → 0 < h.reads + h.writes) ∧
      (0 < c.sleeping .read → 0 < h.writes ∨ 0 < c.sleeping .write) ∧
      (h.total = 0 → c.sleepers = []) ∧
      (∀ releases t, Situation.Run (F := Fault) Situation.Releasing s releases t →
        (∀ move ∈ releases, move.report.faultless = true) ∧
          releases.length + (t.holds.total + t.calls.sleepers.length) =
            h.total + c.sleepers.length ∧
          (Situation.returns releases ++ t.calls.sleepers.map Sleeper.granted).Perm
            (c.sleepers.map Sleeper.granted) ∧
          (0 < t.holds.total → ∃ (move : Situation.Move TicketLock Wait Fault) (u : _),
            Situation.Step t move u ∧ Situation.Releasing t move u) ∧
          (t.holds.total = 0 → t.calls.sleepers = [])) ∧
      (teardown = .reply .done ↔ h.total = 0 ∧ c.sleepers = []) ∧
      (¬ (h.total = 0 ∧ c.sleepers = []) → ∃ f, teardown = .reply (.fault f)) := by
  have hs := Sound.run hrun (sound_fresh q)
  refine ⟨hs.awake.writers, fun hpos ↦ ?_, hs.sleepers_eq_nil, fun releases t hreleases ↦ ?_,
    Guarded.teardown_iff (destroy_eq_ok_iff hs)⟩
  · have := hs.awake.readers hpos
    omega
  · obtain ⟨hlast, hr⟩ := releasable_sound.run hs hreleases
    exact ⟨hr.faultless, hr.count, hr.conserved, Situation.exists_releasing, hlast.sleepers_eq_nil⟩

theorem sleepers_return_two :
    ∃ moves s releases t,
      Situation.Run Peaceful (Situation.fresh (TicketLock.ofQuotas {}).1) moves s ∧
      s.calls.sleepers.length = 2 ∧
      Situation.Run (F := Fault) Situation.Releasing s releases t ∧ releases.length = 3 ∧
      t.calls.sleepers = [] ∧
      ∃ f, (s.guarded.perform (F := Fault) .destroy).answer = .reply (.fault f) := by
  obtain ⟨moves, s, releases, t, hrun, hholds, hlen, hreleases, hcount⟩ :
      ∃ moves s releases t,
        Situation.Run Peaceful (Situation.fresh (TicketLock.ofQuotas {}).1) moves s ∧
        s.holds = ⟨0, 1⟩ ∧ s.calls.sleepers.length = 2 ∧
        Situation.Run (F := Fault) Situation.Releasing s releases t ∧ releases.length = 3 :=
    ⟨_, _, _, _,
      .cons (.intro (.lock .write "first") (.refl _) rfl) ⟨rfl, by decide, by decide⟩ <|
      .cons (.intro (.lock .read "second") (.refl _) rfl) ⟨rfl, by decide, by decide⟩ <|
      .cons (.intro (.lock .write "third") (.refl _) rfl) ⟨rfl, by decide, by decide⟩ <|
      .nil _, rfl, rfl,
      .cons (.intro (.request (.unlock .write)) (.refl _) rfl) ⟨.write, rfl, by decide⟩ <|
      .cons (.intro (.request (.unlock .write)) (.refl _) rfl) ⟨.write, rfl, by decide⟩ <|
      .cons (.intro (.request (.unlock .read)) (.refl _) rfl) ⟨.read, rfl, by decide⟩ <|
      .nil _, rfl⟩
  obtain ⟨-, -, -, hreturn, -, hteardown⟩ := sleepers_return {} hrun
  obtain ⟨-, hsum, -, -, hnone⟩ := hreturn releases t hreleases
  rw [hcount, hholds, hlen] at hsum
  change 3 + (t.holds.total + _) = 1 + 2 at hsum
  refine ⟨moves, s, releases, t, hrun, hlen, hreleases, hcount, hnone (by omega), hteardown ?_⟩
  rw [hholds]
  exact fun h ↦ absurd h.1 Nat.one_ne_zero

end SyncKit.TicketLock
