import SyncKit.Proofs.Quota.Readable
import SyncKit.Proofs.Ticket.Peace

namespace SyncKit

namespace Situation

section RoundTrip

variable {L W F : Type} [Place W] [RawLock L W F]

structure Quiet (s : Situation L W) (move : Move L W F) (r : Request) (l : L)
    (t : Situation L W) : Prop where
  met : move.report.answer.met = true
  returned : move.report.returned = []
  lock : t.calls.lock = l
  sleepers : t.calls.sleepers.Perm s.calls.sleepers
  holds : t.holds = s.holds.met (.request (κ := Caller) r)

/-- Two requests of which the second takes the first back. Both succeed and signal nobody, and `l`
is the lock they leave, in the same hands and with the same calls asleep. -/
structure RoundTrip (F : Type) [RawLock L W F] (s : Situation L W) (r r' : Request) (l : L) :
    Prop where
  requests : ∃ between, RawLock.request r s.calls.lock = SyncKit.Step.done (F := F) .done between ∧
    RawLock.request r' between = SyncKit.Step.done (F := F) .done l
  moves : ∀ {there back : Move L W F} {t u : Situation L W},
    Step s there t → s.guarded.demand? there.op = some (.request r) →
    Step t back u → t.guarded.demand? back.op = some (.request r') →
      (there.report.answer.met = true ∧ back.report.answer.met = true) ∧
        (there.report.returned = [] ∧ back.report.returned = []) ∧
        u.calls.lock = l ∧ u.calls.sleepers.Perm s.calls.sleepers ∧ u.holds = s.holds

variable {s t : Situation L W} {move : Move L W F} {r r' : Request} {l between : L}

theorem Step.quiet (h : Step s move t) (hd : s.guarded.demand? move.op = some (.request r))
    (hstep : RawLock.request r s.calls.lock = SyncKit.Step.done (F := F) .done l) :
    Quiet s move r l t := by
  obtain ⟨sleepers, hp, out, hout, -, hmet, hserved⟩ := h.serves_demand hd
  have hout' : out = { reply := .done, after := ⟨l, sleepers⟩ } :=
    hout.trans (Contended.request_of_done (c := { s.calls with sleepers }) hstep)
  subst hout'
  obtain ⟨hcalls, hholds, hreturned⟩ := hserved rfl
  exact ⟨hmet, hreturned, by rw [hcalls], by rw [hcalls]; exact hp, hholds⟩

theorem roundTrip
    (hthere : RawLock.request r s.calls.lock = SyncKit.Step.done (F := F) .done between)
    (hback : RawLock.request r' between = SyncKit.Step.done (F := F) .done l)
    (hholds : (s.holds.met (.request (κ := Caller) r)).met (.request (κ := Caller) r') = s.holds) :
    RoundTrip F s r r' l where
  requests := ⟨between, hthere, hback⟩
  moves := by
    intro there back t u hst hd htu hd'
    have hgo := hst.quiet hd hthere
    have hreturn := htu.quiet hd' (hgo.lock ▸ hback)
    refine ⟨⟨hgo.met, hreturn.met⟩, ⟨hgo.returned, hreturn.returned⟩, hreturn.lock,
      hreturn.sleepers.trans hgo.sleepers, ?_⟩
    rw [hreturn.holds, hgo.holds, hholds]

end RoundTrip

end Situation

namespace Holds

variable {h : Holds}

theorem release_take (m : Mode) (h : Holds) : (h.take m).release m = h := by cases m <;> rfl

theorem take_release {m : Mode} (hpos : 0 < h.of m) : (h.release m).take m = h := by
  cases m with
  | read => exact congrArg (Holds.mk · h.writes) (Nat.sub_add_cancel hpos)
  | write => exact congrArg (Holds.mk h.reads) (Nat.sub_add_cancel hpos)

theorem upgrade_downgrade (hpos : 0 < h.of .read) :
    (h.met (.request (κ := Caller) .upgrade)).met (.request (κ := Caller) .downgrade) = h := by
  change (((h.release .read).take .write).release .write).take .read = h
  rw [release_take, take_release hpos]

theorem downgrade_upgrade (hpos : 0 < h.of .write) :
    (h.met (.request (κ := Caller) .downgrade)).met (.request (κ := Caller) .upgrade) = h := by
  change (((h.release .write).take .read).release .read).take .write = h
  rw [release_take, take_release hpos]

end Holds

namespace QuotaLock

variable {κ : Type} {h : Holds} {c : Contended QuotaLock Mode κ} {l : QuotaLock}

theorem alone_of_upgraded (hdone : l.upgrade.result = .ok .done) :
    l.mode = some .read ∧ l.active = 1 := by
  unfold upgrade at hdone
  split at hdone
  · cases hdone
  · next hheld =>
    split at hdone
    · cases hdone
    · next hone => exact ⟨by simpa using (not_or.1 hheld).1, by simpa using hone⟩

theorem alone_of_downgraded (hdone : l.downgrade.result = .ok .done) :
    l.mode = some .write ∧ l.active = 1 := by
  unfold downgrade at hdone
  split at hdone
  · cases hdone
  · next hheld => simpa using not_or.1 hheld

def converted (m m' : Mode) (l : QuotaLock) : QuotaLock :=
  { l with mode := some m', returnTo := convertedFrom m l.returnTo }

/-- Converting twice leads back, whichever of the two modes the hold began in. -/
theorem converted_converted {m m' : Mode} (hne : m ≠ m') (hm : l.mode = some m)
    (hr : l.returnTo ≠ some m) : (l.converted m m').converted m' m = l := by
  obtain ⟨mode, active, granted, readers, writers, returnTo, spins, readQuota, writeQuota⟩ := l
  cases hm
  cases returnTo with
  | none => rfl
  | some b =>
    have hb : b = m' := by cases m <;> cases m' <;> cases b <;> first | rfl | contradiction
    rw [hb]
    rfl

theorem downgrade_of_quiet (hm : l.mode = some .write) (ho : l.active = 1)
    (hquiet : (l.returnTo.isSome && l.readQuotaLeft && decide (l.readersWaiting > 0)) = false) :
    l.downgrade = .done .done (l.converted .write .read) := by
  rw [downgrade_eq hm ho, hquiet]
  rfl

namespace Steady

/-- The readers that sleep on behind a reader are barred by the quota, or by a write that was
downgraded before. So an upgrade leaves its downgrade nobody to wake. -/
theorem nobody_readmitted (hs : Steady h c) (hb : Barred c) (hmode : c.lock.mode = some .read) :
    ((convertedFrom .read c.lock.returnTo).isSome && c.lock.readQuotaLeft &&
      decide (c.lock.readersWaiting > 0)) = false := by
  rw [Bool.eq_false_iff]
  intro hwakes
  simp only [Bool.and_eq_true, decide_eq_true_eq, gt_iff_lt, UInt32.lt_iff_toNat_lt] at hwakes
  obtain ⟨⟨hreturn, hquota⟩, hwaiting⟩ := hwakes
  have hasleep : 0 < c.sleeping .read := Nat.lt_of_lt_of_eq hwaiting (hs.tallied.waiting .read)
  obtain ⟨-, hwrite⟩ := hb hasleep ((hs.admits_read_iff hasleep).2 ⟨hmode, hquota⟩)
  rw [hwrite] at hreturn
  cases hreturn

theorem upgrade_undone (hs : Steady h c) (hb : Barred c)
    (hdone : c.lock.upgrade.result = .ok .done) :
    c.lock.upgrade = .done .done (c.lock.converted .read .write) ∧
      (c.lock.converted .read .write).downgrade = .done .done c.lock ∧ 0 < h.of .read := by
  obtain ⟨hmode, hone⟩ := alone_of_upgraded hdone
  have ht := hs.tallied
  have hreturn : c.lock.returnTo ≠ some .read := fun hr ↦ (ht.returnTo .read hr).2 hmode
  have hback := downgrade_of_quiet (l := c.lock.converted .read .write) rfl hone
    (hs.nobody_readmitted hb hmode)
  rw [converted_converted (by decide) hmode hreturn] at hback
  exact ⟨upgrade_of_alone hmode hone, hback,
    ht.of_pos_iff.2 ⟨hmode, Nat.lt_of_lt_of_eq Nat.one_pos (ht.active_eq_one_iff.1 hone).symm⟩⟩

theorem downgrade_undone (hs : Steady h c) (hdone : c.lock.downgrade.result = .ok .done)
    (hreturned : (c.request (F := Fault) .downgrade).returned = []) :
    c.lock.downgrade = .done .done (c.lock.converted .write .read) ∧
      (c.lock.converted .write .read).upgrade = .done .done c.lock ∧ 0 < h.of .write := by
  obtain ⟨hmode, hone⟩ := alone_of_downgraded hdone
  have ht := hs.tallied
  have hreturn : c.lock.returnTo ≠ some .write := fun hr ↦ (ht.returnTo .write hr).2 hmode
  have hpos : 0 < h.of .write :=
    ht.of_pos_iff.2 ⟨hmode, Nat.lt_of_lt_of_eq Nat.one_pos (ht.active_eq_one_iff.1 hone).symm⟩
  -- No reader came back, so none could have come in, and then the downgrade signals nobody.
  have hmodes := hs.readmitted hpos (by
    rw [Outcome.grants, hreturned]
    exact c.lock.granted.toNat_lt)
  rw [hreturned] at hmodes
  have hnone : readmits c = 0 := by simpa [Returned.modes] using hmodes.symm
  have hback := upgrade_of_alone (l := c.lock.converted .write .read) rfl hone
  change _ =
    Step.done Attempt.done ((c.lock.converted .write .read).converted .read .write) at hback
  rw [converted_converted (by decide) hmode hreturn] at hback
  exact ⟨downgrade_of_quiet hmode hone (hs.readmits_eq_zero_iff.1 hnone), hback, hpos⟩

end Steady

end QuotaLock

namespace TicketLock

variable {l : TicketLock}

def leaveReader (l : TicketLock) : TicketLock :=
  { l with word := readerUnit, completions := l.completions + 1 }

theorem downgrade_of_quiet (hw : l.word = writerBit) (hnone : l.readersWaiting = 0) :
    l.downgrade = .done .done l.leaveReader := by
  have hinside : l.writerInside = true := by rw [writerInside, hw]; rfl
  have hword : l.word + readerUnit - writerBit = readerUnit := by rw [hw]; rfl
  simp [downgrade, hinside, hword, wakeReaders, hnone, leaveReader, Step.done]

theorem upgrade_undone (hone : l.word = readerUnit) (hnone : l.readersWaiting = 0) :
    l.upgrade = .done .done l.jumpQueue ∧
      l.jumpQueue.downgrade = .done .done { l with granted := l.granted + 1 } := by
  refine ⟨if_pos hone, (downgrade_of_quiet (l := l.jumpQueue) rfl hnone).trans ?_⟩
  simp only [leaveReader, jumpQueue, Int32.sub_add_cancel, ← hone]

theorem downgrade_undone (hw : l.word = writerBit) (hnone : l.readersWaiting = 0) :
    l.downgrade = .done .done l.leaveReader ∧
      l.leaveReader.upgrade = .done .done { l with granted := l.granted + 1 } := by
  refine ⟨downgrade_of_quiet hw hnone, (upgrade_undone (l := l.leaveReader) rfl hnone).1.trans ?_⟩
  simp only [leaveReader, jumpQueue, Int32.add_sub_cancel, ← hw]

end TicketLock

section Runs

open Situation (Run fresh grants RoundTrip roundTrip)

/-- On a quota lock a conversion is taken back without a trace by the opposite one, whatever history
the hold has, unless it lets in a reader. So it is on a ticket lock for which no reader waits,
whichever writers sleep, except that the round trip counts as a write. -/
theorem conversions_undone (q : Quotas) :
    (∀ {moves : List (Situation.Move QuotaLock Mode QuotaLock.Fault)}
        {s : Situation QuotaLock Mode},
      Run QuotaLock.Uncrowded (fresh (QuotaLock.ofQuotas q)) moves s → grants moves < 2 ^ 32 →
        (s.calls.lock.upgrade.result = .ok .done →
          RoundTrip QuotaLock.Fault s .upgrade .downgrade s.calls.lock) ∧
        (s.calls.lock.downgrade.result = .ok .done →
          (s.calls.request (F := QuotaLock.Fault) .downgrade).returned = [] →
            RoundTrip QuotaLock.Fault s .downgrade .upgrade s.calls.lock)) ∧
    ∀ {moves : List (Situation.Move TicketLock TicketLock.Wait TicketLock.Fault)}
      {s : Situation TicketLock TicketLock.Wait},
      Run TicketLock.Peaceful (fresh (TicketLock.ofQuotas q).1) moves s →
        s.calls.lock.readersWaiting = 0 →
          let l := { s.calls.lock with granted := s.calls.lock.granted + 1 }
          (s.holds = ⟨1, 0⟩ → RoundTrip TicketLock.Fault s .upgrade .downgrade l) ∧
            (s.holds.writes = 1 → RoundTrip TicketLock.Fault s .downgrade .upgrade l) := by
  constructor
  · intro moves s hrun hfew
    have hfit : 0 + grants moves < 2 ^ 32 := by rwa [Nat.zero_add]
    have hfresh := QuotaLock.steady_fresh q
    obtain ⟨hs, -⟩ := hfresh.run hrun hfit
    have hb := hfresh.barred_run hrun (fun hasleep ↦ absurd hasleep (Nat.lt_irrefl 0)) hfit
    refine ⟨fun hdone ↦ ?_, fun hdone hreturned ↦ ?_⟩
    · obtain ⟨hthere, hback, hpos⟩ := hs.upgrade_undone hb hdone
      exact roundTrip hthere hback (Holds.upgrade_downgrade hpos)
    · obtain ⟨hthere, hback, hpos⟩ := hs.downgrade_undone hdone hreturned
      exact roundTrip hthere hback (Holds.downgrade_upgrade hpos)
  · intro moves s hrun hnone l
    have hb := (TicketLock.Sound.run hrun (TicketLock.sound_fresh q)).balanced
    refine ⟨fun hholds ↦ ?_, fun hw ↦ ?_⟩
    · have hword : s.calls.lock.word = TicketLock.readerUnit := by rw [hb.word, hholds]; rfl
      obtain ⟨hthere, hback⟩ := TicketLock.upgrade_undone hword hnone
      exact roundTrip hthere hback (Holds.upgrade_downgrade (by rw [hholds]; exact Nat.one_pos))
    · have hword : s.calls.lock.word = TicketLock.writerBit := by
        rw [hb.word, hw, hb.reads_eq_zero hw]
        rfl
      obtain ⟨hthere, hback⟩ := TicketLock.downgrade_undone hword hnone
      have hpos : 0 < s.holds.of .write := Nat.lt_of_lt_of_eq Nat.one_pos hw.symm
      exact roundTrip hthere hback (Holds.downgrade_upgrade hpos)

/-- A write that was downgraded in front of a sleeping writer, a write in front of a sleeping
reader, and on the other lock a read and a write in front of two sleeping writers. -/
theorem conversions_undone_before_sleepers :
    ((∃ s : Situation QuotaLock Mode, s.calls.lock.returnTo = some .write ∧
        s.calls.sleeping .write = 1 ∧
        RoundTrip QuotaLock.Fault s .upgrade .downgrade s.calls.lock) ∧
      ∃ s : Situation QuotaLock Mode, s.calls.sleeping .read = 1 ∧
        RoundTrip QuotaLock.Fault s .downgrade .upgrade s.calls.lock) ∧
    (∃ s : Situation TicketLock TicketLock.Wait, s.calls.sleeping .write = 2 ∧
        RoundTrip TicketLock.Fault s .upgrade .downgrade { s.calls.lock with granted := 1 }) ∧
      ∃ s : Situation TicketLock TicketLock.Wait, s.calls.sleeping .write = 2 ∧
        RoundTrip TicketLock.Fault s .downgrade .upgrade { s.calls.lock with granted := 2 } := by
  refine ⟨⟨?_, ?_⟩, ?_, ?_⟩
  · obtain ⟨moves, s, hrun, hgrants, hdone, hreturn, hasleep⟩ :
        ∃ moves s, Run QuotaLock.Uncrowded (fresh (QuotaLock.ofQuotas {})) moves s ∧
          grants moves = 1 ∧ s.calls.lock.upgrade.result = .ok .done ∧
          s.calls.lock.returnTo = some .write ∧ s.calls.sleeping .write = 1 :=
      ⟨_, _,
        .cons (.intro (.request (.tryLock .write)) (.refl _) rfl) (by decide) <|
        .cons (.intro (.lock .write "next") (.refl _) rfl) (by decide) <|
        .cons (.intro (.request .downgrade) (.refl _) rfl) (by decide) <|
        .nil _, rfl, rfl, rfl, rfl⟩
    have hfew : grants moves < 2 ^ 32 := by rw [hgrants]; decide
    exact ⟨s, hreturn, hasleep, ((conversions_undone {}).1 hrun hfew).1 hdone⟩
  · obtain ⟨moves, s, hrun, hgrants, hdone, hreturned, hasleep⟩ :
        ∃ moves s, Run QuotaLock.Uncrowded (fresh (QuotaLock.ofQuotas {})) moves s ∧
          grants moves = 1 ∧ s.calls.lock.downgrade.result = .ok .done ∧
          (s.calls.request (F := QuotaLock.Fault) .downgrade).returned = [] ∧
          s.calls.sleeping .read = 1 :=
      ⟨_, _,
        .cons (.intro (.request (.tryLock .write)) (.refl _) rfl) (by decide) <|
        .cons (.intro (.lock .read "next") (.refl _) rfl) (by decide) <|
        .nil _, rfl, rfl, rfl, rfl⟩
    have hfew : grants moves < 2 ^ 32 := by rw [hgrants]; decide
    exact ⟨s, hasleep, ((conversions_undone {}).1 hrun hfew).2 hdone hreturned⟩
  · obtain ⟨moves, s, hrun, hwaiting, hholds, hgranted, hasleep⟩ :
        ∃ moves s, Run TicketLock.Peaceful (fresh (TicketLock.ofQuotas {}).1) moves s ∧
          s.calls.lock.readersWaiting = 0 ∧ s.holds = ⟨1, 0⟩ ∧ s.calls.lock.granted = 0 ∧
          s.calls.sleeping .write = 2 :=
      ⟨_, _,
        .cons (.intro (.lock .read "first") (.refl _) rfl) ⟨rfl, by decide, by decide⟩ <|
        .cons (.intro (.lock .write "second") (.refl _) rfl) ⟨rfl, by decide, by decide⟩ <|
        .cons (.intro (.lock .write "third") (.refl _) rfl) ⟨rfl, by decide, by decide⟩ <|
        .nil _, rfl, rfl, rfl, rfl⟩
    have htrip := ((conversions_undone {}).2 hrun hwaiting).1 hholds
    rw [hgranted] at htrip
    exact ⟨s, hasleep, htrip⟩
  · obtain ⟨moves, s, hrun, hwaiting, hholds, hgranted, hasleep⟩ :
        ∃ moves s, Run TicketLock.Peaceful (fresh (TicketLock.ofQuotas {}).1) moves s ∧
          s.calls.lock.readersWaiting = 0 ∧ s.holds.writes = 1 ∧ s.calls.lock.granted = 1 ∧
          s.calls.sleeping .write = 2 :=
      ⟨_, _,
        .cons (.intro (.lock .write "first") (.refl _) rfl) ⟨rfl, by decide, by decide⟩ <|
        .cons (.intro (.lock .write "second") (.refl _) rfl) ⟨rfl, by decide, by decide⟩ <|
        .cons (.intro (.lock .write "third") (.refl _) rfl) ⟨rfl, by decide, by decide⟩ <|
        .nil _, rfl, rfl, rfl, rfl⟩
    have htrip := ((conversions_undone {}).2 hrun hwaiting).2 hholds
    rw [hgranted] at htrip
    exact ⟨s, hasleep, htrip⟩

end Runs

end SyncKit
