import SyncKit.Proofs.Quota.Handover

namespace SyncKit.QuotaLock

variable {κ : Type}

/-- A lock between two operations. Nobody sleeps in front of a lock that nobody holds. -/
structure Steady (h : Holds) (c : Contended QuotaLock Mode κ) : Prop where
  tallied : Tallied h c
  idle : h.total = 0 → c.lock.granted = 0 ∧ c.sleepers = []
  few : c.sleepers.length < 2 ^ 32

theorem Handover.steady {h : Holds} {before : Nat} {sleepers : List (Sleeper κ Mode)}
    {returned : List (Returned κ Fault)} {after : Contended QuotaLock Mode κ}
    (ho : Handover h before sleepers returned after) (hfew : sleepers.length < 2 ^ 32)
    (hidle : h.total = 0 → returned = [] → after.lock.granted = 0 ∧ after.sleepers = []) :
    Steady (Returned.welcome returned h) after where
  tallied := ho.tallied
  idle := by
    rw [Returned.total_welcome ho.granted]
    intro hfree
    exact hidle (by omega) (List.eq_nil_of_length_eq_zero (by omega))
  few := by
    have := Returned.length_of_conserved ho.conserved
    omega

section Bids

variable {l : QuotaLock} {m : Mode}

def welcomes (m : Mode) (l : QuotaLock) : Bool := l.waiting m == 0 && l.admits m

theorem bidAsNewcomer_of_welcome (hw : l.welcomes m = true) (mayWait : Bool) :
    l.bidAsNewcomer m mayWait = l.grant m := by
  obtain ⟨hzero, ha⟩ := Bool.and_eq_true_iff.1 hw
  rw [bidAsNewcomer, bid, ha, beq_iff_eq.1 hzero]
  rfl

theorem bidAsNewcomer_of_unwelcome (hw : l.welcomes m = false) (mayWait : Bool) :
    l.bidAsNewcomer m mayWait = if mayWait then l.sleep m else .done .refused l := by
  have hcond : (!(l.waiting m != 0) && l.admits m) = false := by
    rw [← hw, welcomes, bne, Bool.not_not]
  rw [bidAsNewcomer, bid, hcond]
  rfl

theorem tryLock_of_unwelcome (hw : l.welcomes m = false) :
    l.tryLock m = .done .wouldBlock l := by
  rw [tryLock, bidAsNewcomer_of_unwelcome hw]
  rfl

theorem tryLock_of_welcome {h : Holds} {sleepers : List (Sleeper κ Mode)}
    (ht : Tallied h ⟨l, sleepers⟩) (hw : l.welcomes m = true)
    (hfit : l.granted.toNat + 1 < 2 ^ 32) : l.tryLock m = .done .done (l.seat m) := by
  rw [tryLock, bidAsNewcomer_of_welcome hw, ht.grant_eq (Bool.and_eq_true_iff.1 hw).2 hfit]
  rfl

theorem tryLock_of_full (hw : l.welcomes m = true) (hfull : ¬ l.granted.toNat + 1 < 2 ^ 32) :
    ∃ n, (l.active.toNat + 1 < 2 ^ 32 → n = l.active + 1) ∧
      l.tryLock m = .fault (.overflow .add) { l with mode := some m, active := n } := by
  obtain ⟨n, hn, hgrant⟩ := grant_of_full (Bool.and_eq_true_iff.1 hw).2 hfull
  refine ⟨n, hn, ?_⟩
  rw [tryLock, bidAsNewcomer_of_welcome hw, hgrant]
  rfl

theorem enter_of_unwelcome (hw : l.welcomes m = false) (hroom : (l.waiting m).toNat + 1 < 2 ^ 32) :
    ∃ notes, l.enter m =
      { result := .ok (.asleep m), lock := l.withWaiting m (l.waiting m + 1), notes } := by
  simp only [enter, bidAsNewcomer_of_unwelcome hw, ↓reduceIte, sleep,
    Checked.increment_of_lt hroom, turnOf]
  exact ⟨_, rfl⟩

end Bids

section Releases

variable {l : QuotaLock} {m b : Mode}

theorem unlock_of_not_held (hn : l.active = 0 ∨ l.mode ≠ some m) :
    l.unlock m = l.misused (.release m) := if_pos hn

theorem active_sub_one_ne_zero (ho : l.active ≠ 1) : l.active - 1 ≠ 0 := by
  intro hz
  have heq := congrArg (· + 1) hz
  simp only [UInt32.sub_add_cancel] at heq
  exact ho heq

theorem unlock_of_shared (hm : l.mode = some m) (ha : l.active ≠ 0) (ho : l.active ≠ 1) :
    l.unlock m = .done .done { l with active := l.active - 1 } := by
  rw [unlock, if_neg (not_or.2 ⟨ha, fun hne ↦ hne hm⟩)]
  exact if_pos (active_sub_one_ne_zero ho)

/-- The last to leave hands the lock on in the mode in which the hold began. -/
theorem unlock_of_last (hm : l.mode = some m) (ha : l.active = 1) :
    ∃ b, l.returnTo.or l.mode = some b ∧
      l.unlock m = { l with active := 0, mode := some b, returnTo := none }.handOff := by
  have hne : l.active ≠ 0 := by rw [ha]; decide
  have hz : l.active - 1 = 0 := by rw [ha]; rfl
  have hunlock : l.unlock m =
      { l with active := 0, mode := l.returnTo.or l.mode, returnTo := none }.handOff := by
    rw [unlock, if_neg (not_or.2 ⟨hne, fun hne ↦ hne hm⟩)]
    simp only [hz, ne_eq, not_true_eq_false, ↓reduceIte]
  obtain ⟨b, hb⟩ : ∃ b, l.returnTo.or l.mode = some b := by
    rw [hm]
    cases l.returnTo with
    | none => exact ⟨m, rfl⟩
    | some b => exact ⟨b, rfl⟩
  exact ⟨b, hb, hb ▸ hunlock⟩

/-- Whom the last holder to leave wakes, and where the count of grants goes on. It starts again
unless writers go on within their quota in front of sleeping readers. -/
inductive Hands (b : Mode) (l : QuotaLock) : List Signal → UInt32 → Prop
  | toNobody (readers : l.readersWaiting = 0) (writers : l.writersWaiting = 0) : Hands b l [] 0
  | toWriter {granted : UInt32} (writers : l.writersWaiting > 0)
      (count : granted = 0 ∧ (b = .read ∨ l.readersWaiting = 0) ∨
        granted = l.granted ∧ b = .write ∧ l.granted < l.writeQuota) :
      Hands b l [.one .write] granted
  | toReaders (readers : l.readersWaiting > 0)
      (due : l.writersWaiting = 0 ∨ b = .write ∧ ¬ l.granted < l.writeQuota) :
      Hands b l [.all .read] 0

theorem handOff_hands (hb : l.mode = some b) :
    ∃ mode granted signals notes,
      l.handOff = { result := .ok .done, lock := { l with mode, granted }, signals, notes } ∧
        Hands b l signals granted := by
  have hzero {n : UInt32} (hn : ¬ n > 0) : n = 0 := by
    rw [gt_iff_lt, UInt32.lt_iff_toNat_lt] at hn
    exact UInt32.toNat_inj.1 (Nat.eq_zero_of_not_pos hn)
  cases b with
  | read =>
    rw [handOff, hb]
    by_cases hw : l.writersWaiting > 0
    · simp only [hw, ↓reduceIte]
      exact ⟨_, _, _, _, rfl, .toWriter hw (.inl ⟨rfl, .inl rfl⟩)⟩
    · by_cases hr : l.readersWaiting > 0
      · simp only [hw, hr, ↓reduceIte]
        exact ⟨_, _, _, _, rfl, .toReaders hr (.inl (hzero hw))⟩
      · simp only [hw, hr, ↓reduceIte]
        exact ⟨_, _, _, _, rfl, .toNobody (hzero hr) (hzero hw)⟩
  | write =>
    rw [handOff, hb]
    by_cases hr : l.readersWaiting > 0
    · by_cases hw : l.writersWaiting > 0 ∧ l.granted < l.writeQuota
      · simp only [hr, hw, and_self, ↓reduceIte]
        exact ⟨_, _, _, _, rfl, .toWriter hw.1 (.inr ⟨rfl, rfl, hw.2⟩)⟩
      · have hdue : l.writersWaiting = 0 ∨ ¬ l.granted < l.writeQuota := by
          by_cases hpos : l.writersWaiting > 0
          · exact .inr fun hlt ↦ hw ⟨hpos, hlt⟩
          · exact .inl (hzero hpos)
        simp only [hr, hw, ↓reduceIte]
        exact ⟨_, _, _, _, rfl, .toReaders hr (hdue.imp_right fun hlt ↦ ⟨rfl, hlt⟩)⟩
    · by_cases hw : l.writersWaiting > 0
      · simp only [hr, hw, ↓reduceIte]
        exact ⟨_, _, _, _, rfl, .toWriter hw (.inl ⟨rfl, .inr (hzero hr)⟩)⟩
      · simp only [hr, hw, ↓reduceIte]
        exact ⟨_, _, _, _, rfl, .toNobody (hzero hr) (hzero hw)⟩

end Releases

section Conversions

variable {l : QuotaLock}

theorem upgrade_of_not_held (hn : l.mode ≠ some .read ∨ l.active = 0) :
    l.upgrade = l.misused .upgrade := if_pos hn

theorem upgrade_of_shared (hm : l.mode = some .read) (hz : l.active ≠ 0) (ho : l.active ≠ 1) :
    l.upgrade = .done .wouldBlock l := by
  rw [upgrade, if_neg (not_or.2 ⟨fun hne ↦ hne hm, hz⟩), if_pos ho]

theorem upgrade_of_alone (hm : l.mode = some .read) (ho : l.active = 1) :
    l.upgrade = .done .done
      { l with mode := some .write, returnTo := convertedFrom .read l.returnTo } := by
  have hz : l.active ≠ 0 := by rw [ho]; decide
  rw [upgrade, if_neg (not_or.2 ⟨fun hne ↦ hne hm, hz⟩), if_neg fun hne ↦ hne ho]

theorem downgrade_of_not_held (hn : l.mode ≠ some .write ∨ l.active ≠ 1) :
    l.downgrade = l.misused .downgrade := if_pos hn

/-- A downgrade wakes readers only where it takes an upgrade back. -/
theorem downgrade_eq (hm : l.mode = some .write) (ho : l.active = 1) :
    l.downgrade =
      { result := .ok .done
        lock := { l with mode := some .read, returnTo := convertedFrom .write l.returnTo }
        signals := if l.returnTo.isSome && l.readQuotaLeft && decide (l.readersWaiting > 0)
          then [.all .read] else [] } := by
  rw [downgrade, if_neg (not_or.2 ⟨fun hne ↦ hne hm, fun hne ↦ hne ho⟩)]
  cases l.returnTo with
  | none => simp [convertedFrom]
  | some m => simp [convertedFrom, readQuotaLeft]

theorem downgrade_of_held (hm : l.mode = some .write) (ho : l.active = 1) :
    ∃ signals, (signals = [] ∨ signals = [.all .read]) ∧ l.downgrade =
      { result := .ok .done
        lock := { l with mode := some .read, returnTo := convertedFrom .write l.returnTo }
        signals } := by
  refine ⟨_, ?_, downgrade_eq hm ho⟩
  split
  · exact .inr rfl
  · exact .inl rfl

end Conversions

namespace Tallied

variable {h : Holds} {c : Contended QuotaLock Mode κ} {m m' : Mode}

theorem leave (ht : Tallied h c) (hpos : 0 < h.of m) (hshared : 1 < h.total) :
    Tallied (h.release m) { c with lock.active := c.lock.active - 1 } := by
  have htotal : (h.release m).total = h.total - 1 := by
    cases m <;> simp only [Holds.of, Holds.release, Holds.total] at hpos ⊢ <;> omega
  have hactive := ht.active
  have hdec := Checked.toNat_of_decrement (Checked.decrement_of_pos (n := c.lock.active) (by omega))
  have hle := ht.granted
  have hreleased (m' : Mode) : (h.release m).of m' ≤ h.of m' := by
    cases m <;> cases m' <;> simp [Holds.of, Holds.release]
  exact { ht with
    active := by
      change (c.lock.active - 1).toNat = _
      omega
    mode := fun m' hm' ↦ ht.mode m' (Nat.lt_of_lt_of_le hm' (hreleased m'))
    alone := Nat.le_trans (hreleased .write) ht.alone
    waiting := ht.waiting_of_eq rfl rfl
    granted := by
      rw [htotal]
      exact Nat.le_trans (Nat.sub_le _ _) hle
    returnTo := fun m' hr ↦ by
      rw [htotal]
      exact ⟨by omega, (ht.returnTo m' hr).2⟩ }

theorem vacate (ht : Tallied h c) (mode : Option Mode) (granted : UInt32) :
    Tallied {} { c with lock := { c.lock with active := 0, mode, granted, returnTo := none } } :=
  { ht with
    active := rfl
    mode := fun m hpos ↦ by cases m <;> exact absurd hpos (Nat.lt_irrefl 0)
    alone := Nat.zero_le 1
    waiting := ht.waiting_of_eq rfl rfl
    granted := Nat.zero_le _
    returnTo := nofun }

theorem convert (ht : Tallied h c) (hone : h.total = 1) (m m' : Mode) (hne : m' ≠ m) :
    Tallied (Holds.take m' {})
      { c with lock := { c.lock with
          mode := some m', returnTo := convertedFrom m c.lock.returnTo } } :=
  have htotal : (Holds.take m' {}).total = 1 := by cases m' <;> rfl
  { ht with
    active := by rw [htotal]; exact ht.active.trans hone
    mode := fun k hpos ↦ by
      cases k <;> cases m' <;> first | rfl | exact absurd hpos (Nat.lt_irrefl 0)
    alone := by cases m' <;> decide
    waiting := ht.waiting_of_eq rfl rfl
    granted := by rw [htotal, ← hone]; exact ht.granted
    returnTo := fun k hr ↦ by
      rw [htotal]
      refine ⟨Nat.one_pos, ?_⟩
      dsimp only at hr ⊢
      cases hold : c.lock.returnTo with
      | none =>
        rw [hold] at hr
        cases hr
        exact fun he ↦ hne (Option.some.inj he)
      | some _ =>
        rw [hold] at hr
        cases hr }

theorem release_eq_empty (ht : Tallied h c) (hpos : 0 < h.of m) (hone : h.total = 1) :
    h.release m = {} := by
  have hof := ht.of_eq_total hpos
  obtain ⟨reads, writes⟩ := h
  cases m <;> simp only [Holds.of, Holds.total] at hof hone
  · obtain rfl : reads = 1 := by omega
    obtain rfl : writes = 0 := by omega
    rfl
  · obtain rfl : writes = 1 := by omega
    obtain rfl : reads = 0 := by omega
    rfl

end Tallied

end SyncKit.QuotaLock
