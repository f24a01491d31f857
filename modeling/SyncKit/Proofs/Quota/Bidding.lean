import SyncKit.Proofs.Quota.Tallied
import SyncKit.Proofs.Word

namespace SyncKit.QuotaLock

variable {κ : Type} {h : Holds} {l : QuotaLock} {m : Mode}

def seat (m : Mode) (l : QuotaLock) : QuotaLock :=
  { l with mode := some m, active := l.active + 1, granted := l.granted + 1 }

/-- A lock that let in `k` callers in one mode, one after the other. Readers that find holders
inside and writers asleep come in only within the read quota. -/
structure LetsIn (m : Mode) (k : Nat) (l l' : QuotaLock) : Prop where
  granted : l'.granted.toNat = l.granted.toNat + k
  active : l'.active.toNat = l.active.toNat + k
  mode : l'.mode = if k = 0 then l.mode else some m
  returnTo : l'.returnTo = l.returnTo
  readQuota : l'.readQuota = l.readQuota
  writeQuota : l'.writeQuota = l.writeQuota
  others : ∀ m', m' ≠ m → l'.waiting m' = l.waiting m'
  within : m = .read → 0 < k → l.writersWaiting ≠ 0 →
    (l.active = 0 → l.granted < l.readQuota) → l'.granted ≤ l.readQuota

namespace LetsIn

variable {k j : Nat} {l' l'' : QuotaLock}

theorem nobody (m : Mode) (l : QuotaLock) : LetsIn m 0 l l where
  granted := rfl
  active := rfl
  mode := rfl
  returnTo := rfl
  readQuota := rfl
  writeQuota := rfl
  others := fun _ _ ↦ rfl
  within := fun _ hpos ↦ absurd hpos (Nat.lt_irrefl 0)

theorem trans (hk : LetsIn m k l l') (hj : LetsIn m j l' l'') : LetsIn m (k + j) l l'' where
  granted := by rw [hj.granted, hk.granted, Nat.add_assoc]
  active := by rw [hj.active, hk.active, Nat.add_assoc]
  mode := by
    rw [hj.mode, hk.mode]
    by_cases hj0 : j = 0 <;> by_cases hk0 : k = 0 <;> simp [hj0, hk0]
  returnTo := hj.returnTo.trans hk.returnTo
  readQuota := hj.readQuota.trans hk.readQuota
  writeQuota := hj.writeQuota.trans hk.writeQuota
  others := fun m' hne ↦ (hj.others m' hne).trans (hk.others m' hne)
  within := by
    intro hm hpos hwriters hroom
    have hwaiting : l'.writersWaiting = l.writersWaiting := hk.others .write (by simp [hm])
    have hgranted := hk.granted
    have hactive := hk.active
    rcases Nat.eq_zero_or_pos j with rfl | hjpos
    · have hsame := hj.granted
      rw [UInt32.le_iff_toNat_le, hsame, Nat.add_zero, ← UInt32.le_iff_toNat_le]
      exact hk.within hm hpos hwriters hroom
    · rw [← hk.readQuota]
      apply hj.within hm hjpos (hwaiting ▸ hwriters)
      intro hfree
      -- Nobody is inside, so nobody has been let in yet.
      have hsum : l.active.toNat + k = 0 := hactive.symm.trans (congrArg UInt32.toNat hfree)
      have hlt := hroom (UInt32.toNat_inj.1 (Nat.eq_zero_of_add_eq_zero_right hsum))
      rw [UInt32.lt_iff_toNat_lt] at hlt ⊢
      rw [hk.readQuota]
      omega

end LetsIn

/-- A grant that the counter has no room for has let its caller in already, if the count of holders
has room. -/
theorem grant_of_full (ha : l.admits m = true) (hfull : ¬ l.granted.toNat + 1 < 2 ^ 32) :
    ∃ n, (l.active.toNat + 1 < 2 ^ 32 → n = l.active + 1) ∧
      l.grant m = .fault (.overflow .add) { l with mode := some m, active := n } := by
  have hcount (l' : QuotaLock) (h' : l'.granted = l.granted) :
      l'.countGrant = .fault (.overflow .add) l' := by
    rw [countGrant, h', Checked.increment_of_full hfull]
  cases m with
  | read =>
    by_cases hactive : l.active.toNat + 1 < 2 ^ 32
    · refine ⟨_, fun _ ↦ rfl, ?_⟩
      simp only [grant, Checked.increment_of_lt hactive]
      exact hcount _ rfl
    · refine ⟨l.active, fun hlt ↦ absurd hlt hactive, ?_⟩
      simp only [grant, Checked.increment_of_full hactive]
  | write =>
    have hfree : l.active = 0 := beq_iff_eq.1 ha
    refine ⟨1, fun _ ↦ by rw [hfree]; rfl, hcount { l with mode := some .write, active := 1 } rfl⟩

namespace Tallied

variable {sleepers : List (Sleeper κ Mode)}

theorem toNat_active_succ (ht : Tallied h ⟨l, sleepers⟩) (hfit : l.granted.toNat + 1 < 2 ^ 32) :
    (l.active + 1).toNat = h.total + 1 := by
  have hle := ht.granted
  have hactive := ht.active
  dsimp only at hle hactive
  have hinc := Checked.increment_of_lt (n := l.active) (by omega)
  rw [Checked.toNat_of_increment hinc, hactive]

theorem grant_eq (ht : Tallied h ⟨l, sleepers⟩) (ha : l.admits m = true)
    (hfit : l.granted.toNat + 1 < 2 ^ 32) : l.grant m = .done .granted (l.seat m) := by
  have hle := ht.granted
  have hactive := ht.active
  dsimp only at hle hactive
  have hcount (l' : QuotaLock) (h' : l'.granted = l.granted) :
      l'.countGrant = .done .granted { l' with granted := l.granted + 1 } := by
    rw [countGrant, h', Checked.increment_of_lt hfit]
  cases m with
  | read =>
    simp only [grant, Checked.increment_of_lt (n := l.active) (by omega)]
    exact hcount _ rfl
  | write =>
    have hfree : l.active = 0 := beq_iff_eq.1 ha
    refine (hcount { l with mode := some .write, active := 1 } rfl).trans ?_
    rw [QuotaLock.seat, hfree]
    rfl

theorem letsIn (ht : Tallied h ⟨l, sleepers⟩) (ha : l.admits m = true)
    (hfit : l.granted.toNat + 1 < 2 ^ 32) (n : UInt32) (spins : Int32) :
    LetsIn m 1 l { (l.withWaiting m n).seat m with spins } where
  granted := by
    change ((l.withWaiting m n).granted + 1).toNat = _
    rw [granted_withWaiting]
    exact Checked.toNat_of_increment (Checked.increment_of_lt hfit)
  active := by
    change ((l.withWaiting m n).active + 1).toNat = _
    rw [active_withWaiting, ht.toNat_active_succ hfit]
    exact congrArg (· + 1) ht.active.symm
  mode := rfl
  returnTo := returnTo_withWaiting m n l
  readQuota := by cases m <;> rfl
  writeQuota := by cases m <;> rfl
  others := by
    intro m' hne
    rw [← waiting_withWaiting_of_ne m n l hne]
    cases m' <;> rfl
  within := by
    rintro rfl - hwriters hroom
    have hlt : l.granted < l.readQuota := by
      simp only [admits, readQuotaLeft, Bool.or_eq_true, Bool.and_eq_true, beq_iff_eq,
        decide_eq_true_eq, hwriters, false_or] at ha
      rcases ha with hfree | ⟨-, hlt⟩
      · exact hroom hfree
      · exact hlt
    rw [UInt32.lt_iff_toNat_lt] at hlt
    rw [UInt32.le_iff_toNat_le]
    change (l.granted + 1).toNat ≤ _
    rw [Checked.toNat_of_increment (Checked.increment_of_lt hfit)]
    exact hlt

theorem seat (ht : Tallied h ⟨l, sleepers⟩) (ha : l.admits m = true)
    (hfit : l.granted.toNat + 1 < 2 ^ 32) : Tallied (h.take m) ⟨l.seat m, sleepers⟩ := by
  have htotal : (h.take m).total = h.total + 1 := by
    cases m <;> simp only [Holds.take, Holds.total] <;> omega
  have hgranted : (l.granted + 1).toNat = l.granted.toNat + 1 :=
    Checked.toNat_of_increment (Checked.increment_of_lt hfit)
  have hle := ht.granted
  -- Who is inside already shares the mode of the grant.
  have hothers : ∀ m', 0 < h.of m' → m' = m := by
    intro m' hpos
    have htotal : 0 < h.total := ht.of_eq_total hpos ▸ hpos
    obtain ⟨rfl, hmode⟩ := ht.mode_of_admits ha htotal
    exact Option.some.inj ((ht.mode m' hpos).symm.trans hmode)
  exact {
    active := by
      rw [htotal]
      exact ht.toNat_active_succ hfit
    mode := by
      intro m' hpos
      refine congrArg some ?_
      by_cases he : m' = m
      · exact he.symm
      · refine (hothers m' ?_).symm
        cases m <;> cases m' <;> first | exact absurd rfl he | exact hpos
    alone := by
      cases m with
      | read => exact ht.alone
      | write =>
        have hzero : ¬ 0 < h.of .write := fun hpos ↦ by
          have := of_decide_eq_true (ht.admits_write_eq.symm.trans ha)
          exact Nat.ne_of_gt hpos ((ht.of_eq_total hpos).trans this)
        change ¬ 0 < h.writes at hzero
        change h.writes + 1 ≤ 1
        omega
    waiting := ht.waiting_of_eq rfl rfl
    granted := by
      change (h.take m).total ≤ (l.granted + 1).toNat
      rw [htotal, hgranted]
      exact Nat.succ_le_succ hle
    returnTo := by
      intro m' hr
      obtain ⟨hpos, hne⟩ := ht.returnTo m' hr
      obtain ⟨rfl, hmode⟩ := ht.mode_of_admits ha hpos
      rw [htotal]
      exact ⟨Nat.succ_pos _, fun he ↦ hne (hmode.trans he)⟩
    spins := ht.spins
    estimates := ht.estimates }

end Tallied

section Resume

variable {s : Sleeper κ Mode} {others : List (Sleeper κ Mode)}

theorem waiting_pos (ht : Tallied h ⟨l, s :: others⟩) : 0 < (l.waiting s.mode).toNat := by
  rw [ht.waiting, Contended.sleeping, Contended.countP_mode_cons, if_pos rfl]
  exact Nat.succ_pos _

theorem resume_eq_bid (ht : Tallied h ⟨l, s :: others⟩) :
    ∃ n : UInt32, n.toNat + 1 = (l.waiting s.mode).toNat ∧ RawLock.resume s.wait l =
      turnOf s.mode ((l.withWaiting s.mode n).bid s.mode true false) := by
  have hdec := Checked.decrement_of_pos (waiting_pos ht)
  refine ⟨_, Checked.toNat_of_decrement hdec, ?_⟩
  change l.resume s.mode = _
  rw [QuotaLock.resume, hdec]

theorem resume_of_admits (ht : Tallied h ⟨l, s :: others⟩) (ha : l.admits s.mode = true)
    (hfit : l.granted.toNat + 1 < 2 ^ 32) :
    ∃ l', Contended.resume s l = Step.done (F := Fault) .acquired l' ∧
      LetsIn s.mode 1 l l' ∧ Tallied (h.take s.mode) ⟨l', others⟩ := by
  obtain ⟨n, hn, hresume⟩ := resume_eq_bid ht
  have hpart := ht.part hn
  have ha' : (l.withWaiting s.mode n).admits s.mode = true := by rwa [admits_withWaiting]
  have hfit' : (l.withWaiting s.mode n).granted.toNat + 1 < 2 ^ 32 := by
    rwa [granted_withWaiting]
  obtain ⟨moved, hmoved, hsettled⟩ := Spin.next_settled
    (ht.estimates s List.mem_cons_self)
    (Spin.spent_none_bounds (ht.estimates s List.mem_cons_self))
  have hbid : (l.withWaiting s.mode n).bid s.mode true false =
      .done .granted ((l.withWaiting s.mode n).seat s.mode) := by
    rw [bid, ha', hpart.grant_eq ha' hfit']
    rfl
  rw [hbid] at hresume
  refine ⟨_, ?_, ht.letsIn ha hfit n moved, (hpart.seat ha' hfit').withSpins hsettled⟩
  rw [Contended.resume, hresume, Contended.conclude_acquired rfl hmoved]
  rfl

theorem resume_faults (ht : Tallied h ⟨l, s :: others⟩) (ha : l.admits s.mode = true)
    (hfull : ¬ l.granted.toNat + 1 < 2 ^ 32) :
    ∃ f, (Contended.resume (F := Fault) s l).result = .error f := by
  obtain ⟨n, hn, hresume⟩ := resume_eq_bid ht
  have ha' : (l.withWaiting s.mode n).admits s.mode = true := by rwa [admits_withWaiting]
  obtain ⟨k, -, hgrant⟩ := grant_of_full ha' (by rwa [granted_withWaiting])
  have hresult : (RawLock.resume (F := Fault) s.wait l).result = .error (.overflow .add) := by
    rw [hresume, turnOf, bid, ha', hgrant]
    rfl
  refine ⟨.overflow .add, ?_⟩
  rw [Contended.resume, Contended.conclude, hresult]
  exact hresult

/-- A woken call that is not admitted sleeps again and leaves no trace. -/
theorem resume_of_refused (ht : Tallied h ⟨l, s :: others⟩) (ha : l.admits s.mode = false) :
    ∃ notes, Contended.resume s l =
      { result := Except.ok (ε := Fault) (.asleep s.wait), lock := l, notes } := by
  obtain ⟨n, hn, hresume⟩ := resume_eq_bid ht
  have hlt := (l.waiting s.mode).toNat_lt
  have hinc : Checked.increment ((l.withWaiting s.mode n).waiting s.mode) =
      .ok (l.waiting s.mode) := by
    rw [waiting_withWaiting_self, Checked.increment_of_lt (by omega)]
    refine congrArg _ (UInt32.toNat_inj.1 ?_)
    rw [Checked.toNat_of_increment (Checked.increment_of_lt (by omega)), hn]
  have hbid : ∃ notes, turnOf s.mode ((l.withWaiting s.mode n).bid s.mode true false) =
      { result := .ok (.asleep s.wait), lock := l, notes } := by
    rw [bid, admits_withWaiting, ha]
    simp only [Bool.and_false, Bool.false_eq_true, ↓reduceIte, sleep, hinc,
      withWaiting_withWaiting, withWaiting_waiting, turnOf]
    exact ⟨_, rfl⟩
  obtain ⟨notes, hbid⟩ := hbid
  refine ⟨notes, ?_⟩
  rw [Contended.resume, hresume, hbid, Contended.conclude_asleep rfl]

end Resume

end SyncKit.QuotaLock
