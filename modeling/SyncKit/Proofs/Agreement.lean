import SyncKit.Proofs.Lock.Verdict
import SyncKit.Proofs.Quota.Wakeup
import SyncKit.Proofs.Ticket.Wakeup

namespace SyncKit

namespace TicketLock

/-- The lock with nobody asleep, after at most `n` requests. -/
structure Lone (n : Nat) (h : Holds) (l : TicketLock) : Prop where
  sound : Sound (κ := Caller) h ⟨l, []⟩
  few : h.reads ≤ n

variable {n : Nat} {h : Holds} {l : TicketLock}

theorem Lone.result (hl : Lone n h l) (r : Request) :
    (RawLock.request (F := Fault) r l).result.toOption = h.attempt r := by
  have hb := hl.sound.balanced
  have hm := hl.sound.modest
  have hle := hb.writes_le
  match r with
  | .tryLock .read =>
    change l.tryRead.result.toOption = _
    by_cases hw : h.writes = 0
    · rw [tryRead_of_free hb hm hw, Holds.attempt, if_pos hw]
      rfl
    · rw [tryRead_of_queued hb hm (Nat.pos_of_ne_zero hw), Holds.attempt, if_neg hw]
      rfl
  | .tryLock .write =>
    change l.tryWrite.result.toOption = some (if h.reads + h.writes = 0 then _ else _)
    by_cases hfree : h.reads = 0 ∧ h.writes = 0
    · rw [tryWrite, if_pos ((word_eq_zero_iff hb hm).2 hfree), if_pos (Nat.add_eq_zero_iff.2 hfree)]
      rfl
    · rw [tryWrite, if_neg (mt (word_eq_zero_iff hb hm).1 hfree),
        if_neg (mt Nat.add_eq_zero_iff.1 hfree)]
      rfl
  | .unlock .read =>
    change l.unlockRead.result.toOption = if 0 < h.reads then _ else _
    by_cases hr : 0 < h.reads
    · rw [unlockRead_of_held hb hm hr, if_pos hr]
      rfl
    · rw [unlockRead_of_not_held hb hm (Nat.eq_zero_of_not_pos hr), if_neg hr]
      rfl
  | .unlock .write =>
    change l.unlockWrite.result.toOption = if 0 < h.writes then _ else _
    by_cases hw : h.writes = 1
    · rw [(unlockWrite_of_held hb hm hw).1, hw]
      rfl
    · rw [unlockWrite_of_not_held hb hw, if_neg (by omega)]
      rfl
  | .upgrade =>
    change l.upgrade.result.toOption = _
    by_cases hr : h.reads = 0
    · rw [upgrade_of_not_held hb hm hr, Holds.attempt, if_pos hr]
      rfl
    · rw [Holds.attempt, if_neg hr]
      by_cases hone : h.reads = 1
      · rw [upgrade_of_alone hb hone (hb.writes_eq_zero (by omega)), if_pos hone]
        rfl
      · rw [upgrade_of_shared hb hm (by omega), if_neg hone]
        rfl
  | .downgrade =>
    change l.downgrade.result.toOption = if 0 < h.writes then _ else _
    by_cases hw : h.writes = 1
    · rw [downgrade_of_held hb hw, hw]
      rfl
    · rw [downgrade_of_not_held hb hw, if_neg (by omega)]
      rfl

theorem Lone.kept (hl : Lone n h l) (hn : n + 1 < 2 ^ 30) {r : Request} {a : Attempt}
    (ha : h.attempt r = some a) :
    Lone (n + 1) (h.attempted r a) (RawLock.request (F := Fault) r l).lock := by
  have hresult := result_of_attempt ((hl.result r).trans ha)
  obtain ⟨hfaultless, -, hsettle, hafter⟩ := Contended.serve_of_attempt
    (c := (⟨l, []⟩ : Contended TicketLock Wait Caller)) rfl hresult h
  obtain ⟨hb, hawake⟩ := hl.sound.serve (.request r) hfaultless
  have hfew := hl.few
  have hle := h.reads_attempted_le r a
  rw [hsettle, hafter] at hb hawake
  exact ⟨⟨hb, hawake, ⟨by omega, show 0 < 2 ^ 30 by decide⟩⟩, by omega⟩

theorem decides_lone : Decides (F := Fault) Lone where
  result := fun r hl _ ↦ hl.result r
  kept := fun hl hn ha ↦ hl.kept hn ha
  destroy := fun hl ↦ (destroy_eq_ok_iff hl.sound).trans (and_iff_left rfl)

theorem lone_fresh (q : Quotas) : Lone 0 {} (TicketLock.ofQuotas q).1 :=
  ⟨sound_fresh q, Nat.le_refl 0⟩

end TicketLock

namespace QuotaLock

structure Lone (n : Nat) (h : Holds) (l : QuotaLock) : Prop where
  steady : Steady (κ := Caller) h ⟨l, []⟩
  few : l.granted.toNat ≤ n

variable {n : Nat} {h : Holds} {l : QuotaLock}

theorem Lone.admits_read (hl : Lone n h l) : l.admits .read = decide (h.writes = 0) := by
  have ht := hl.steady.tallied
  rw [Bool.eq_iff_iff, decide_eq_true_iff]
  refine ⟨fun ha ↦ Nat.eq_zero_of_not_pos fun hw ↦ ?_, fun hw ↦ ?_⟩
  · obtain ⟨-, hmode⟩ := ht.mode_of_admits ha (Nat.lt_of_lt_of_le hw (Nat.le_add_left _ _))
    cases (ht.mode .write hw).symm.trans hmode
  · by_cases hr : 0 < h.reads
    · have hmode : l.mode = some .read := ht.mode .read hr
      have hnone : l.writersWaiting = 0 := (ht.waiting_eq_zero_iff (m := .write)).2 rfl
      simp [admits, hmode, readQuotaLeft, hnone]
    · exact ht.admits_of_free (by rw [Holds.total]; omega) .read

theorem Lone.tryLock (hl : Lone n h l) (hn : n + 1 < 2 ^ 30) (m : Mode) :
    (l.tryLock m).result = .ok (if l.admits m then .done else .wouldBlock) := by
  have ht := hl.steady.tallied
  have hfew := hl.few
  have hwelcome : l.welcomes m = l.admits m := by
    rw [welcomes, show l.waiting m = 0 from ht.waiting_eq_zero_iff.2 rfl]
    rfl
  cases ha : l.admits m with
  | true => rw [tryLock_of_welcome ht (hwelcome.trans ha) (by omega)]; rfl
  | false => rw [tryLock_of_unwelcome (hwelcome.trans ha)]; rfl

theorem Lone.result (hl : Lone n h l) (hn : n + 1 < 2 ^ 30) (r : Request) :
    (RawLock.request (F := Fault) r l).result.toOption = h.attempt r := by
  have ht := hl.steady.tallied
  by_cases hp : h.Permits r
  · match r with
    | .tryLock .read =>
      change (l.tryLock .read).result.toOption = _
      rw [hl.tryLock hn, hl.admits_read, Holds.attempt]
      by_cases hw : h.writes = 0 <;> simp [hw, Except.toOption]
    | .tryLock .write =>
      change (l.tryLock .write).result.toOption = _
      rw [hl.tryLock hn, ht.admits_write_eq, Holds.attempt]
      by_cases hfree : h.total = 0 <;> simp [hfree, Except.toOption]
    | .unlock m =>
      change 0 < h.of m at hp
      rw [Holds.attempt, if_pos hp]
      exact toOption_of_done (hl.steady.unlock hp).1
    | .upgrade =>
      change 0 < h.of .read at hp
      obtain ⟨hmode, htotal⟩ := ht.of_pos_iff.1 hp
      have hof : h.reads = h.total := ht.of_eq_total hp
      change l.upgrade.result.toOption = _
      rw [Holds.attempt, hof, if_neg (Nat.ne_of_gt htotal)]
      by_cases hone : h.total = 1
      · rw [upgrade_of_alone (l := l) hmode (ht.active_eq_one_iff.2 hone), if_pos hone]
        rfl
      · rw [upgrade_of_shared (l := l) hmode (mt ht.active_eq_zero_iff.1 (Nat.ne_of_gt htotal))
          (mt ht.active_eq_one_iff.1 hone), if_neg hone]
        rfl
    | .downgrade =>
      change 0 < h.writes at hp
      obtain ⟨hmode, hactive, -⟩ := ht.write_held hp
      obtain ⟨signals, -, hstep⟩ := downgrade_of_held (l := l) hmode hactive
      change l.downgrade.result.toOption = _
      rw [Holds.attempt, if_pos hp, hstep]
      rfl
  · rw [Holds.attempt_eq_none hp]
    obtain ⟨misuse, hreply⟩ := (misused_request ht hp).reply
    exact toOption_of_fault hreply

theorem Lone.kept (hl : Lone n h l) (hn : n + 1 < 2 ^ 30) {r : Request} {a : Attempt}
    (ha : h.attempt r = some a) :
    Lone (n + 1) (h.attempted r a) (RawLock.request (F := Fault) r l).lock := by
  have hresult := result_of_attempt ((hl.result hn r).trans ha)
  obtain ⟨hfaultless, hreturned, hsettle, hafter⟩ := Contended.serve_of_attempt
    (c := (⟨l, []⟩ : Contended QuotaLock Mode Caller)) rfl hresult h
  have hgrants : (Contended.serve (F := Fault)
      (⟨l, []⟩ : Contended QuotaLock Mode Caller) (.request r)).grants (.request r) ≤ 1 := by
    rw [Outcome.grants, hreturned]
    split <;> decide
  have hfew : l.granted.toNat ≤ n := hl.few
  obtain hserved | ⟨-, hmisused⟩ := hl.steady.serve (.request r)
    (fun _ _ hd ↦ by cases hd) (by dsimp only; omega)
  · have hsteady := hserved.steady
    have hcounted := hserved.counted
    rw [hsettle, hafter] at hsteady
    rw [hafter] at hcounted
    exact ⟨hsteady, by dsimp only at hcounted; omega⟩
  · obtain ⟨misuse, hreply⟩ := hmisused.reply
    rw [Outcome.faultless, hreply] at hfaultless
    cases hfaultless

theorem decides_lone : Decides (F := Fault) Lone where
  result := fun r hl hn ↦ hl.result hn r
  kept := fun hl hn ha ↦ hl.kept hn ha
  destroy := fun hl ↦ hl.steady.destroy_eq_ok_iff.trans (and_iff_left rfl)

theorem lone_fresh (q : Quotas) : Lone 0 {} (QuotaLock.ofQuotas q) :=
  ⟨steady_fresh q, Nat.le_refl 0⟩

end QuotaLock

/-- The numbers of readers and writers inside can be read off either lock, and are the same. -/
def HeldAlike (a : TicketLock) (b : QuotaLock) : Prop :=
  (∃ r w : Nat, w ≤ 1 ∧ a.word.toInt = 2 * r + w) ∧
    ∀ r w : Nat, w ≤ 1 →
      (a.word.toInt = 2 * r + w ↔
        b.active.toNat = r + w ∧ (0 < b.active → (b.mode = some .write ↔ w = 1)))

theorem heldAlike_of_lone {n n' : Nat} {h : Holds} {a : TicketLock} {b : QuotaLock}
    (ha : a.Lone n h) (hb : b.Lone n' h) : HeldAlike a b := by
  have hexclusive := ha.sound.balanced.exclusive
  have hreads := ha.sound.modest.reads
  have ht := hb.steady.tallied
  have hword : a.word.toInt = 2 * h.reads + h.writes := by
    rw [show a.word = _ from ha.sound.balanced.word, Int32.toInt_ofNat_of_lt (by omega)]
    omega
  have hactive : b.active.toNat = h.reads + h.writes := ht.active
  have hmode : 0 < b.active → (b.mode = some .write ↔ h.writes = 1) := by
    intro hpos
    have hwrite : 0 < h.writes ↔ b.mode = some .write ∧ 0 < h.total := ht.of_pos_iff (m := .write)
    rw [and_iff_left (ht.active_pos_iff.1 hpos)] at hwrite
    rw [← hwrite]
    omega
  refine ⟨⟨h.reads, h.writes, by omega, hword⟩, fun r w hw ↦ ?_⟩
  rw [hword, hactive]
  refine ⟨fun he ↦ ?_, fun ⟨hsum, hiff⟩ ↦ ?_⟩
  · obtain rfl : w = h.writes := by omega
    exact ⟨by omega, hmode⟩
  · by_cases hpos : 0 < b.active
    · have := (hmode hpos).symm.trans (hiff hpos)
      omega
    · have hfree := mt ht.active_pos_iff.2 hpos
      rw [Holds.total] at hfree
      omega

/-- Asked the same with nobody asleep, the two locks answer alike until both fault, and are held
alike as long as they do. -/
theorem locks_agree (q q' : Quotas) (requests : List Request) (teardown : Bool)
    (hfew : requests.length < 2 ^ 30) :
    let operations := requests.map Guarded.Operation.request ++
      if teardown then [.destroy] else []
    let first : Guarded TicketLock TicketLock.Wait :=
      { calls := { lock := (TicketLock.ofQuotas q).1 } }
    let second : Guarded QuotaLock Mode := { calls := { lock := QuotaLock.ofQuotas q' } }
    InStep HeldAlike (Guarded.run operations (some first))
      (Guarded.run operations (some second)) := by
  refine TicketLock.decides_lone.inStep QuotaLock.decides_lone heldAlike_of_lone requests ?_ rfl rfl
    (TicketLock.lone_fresh q) (QuotaLock.lone_fresh q') (by omega)
  cases teardown with
  | true => exact .inr rfl
  | false => exact .inl rfl

theorem locks_agree_converted :
    let requests : List Request :=
      [.tryLock .read, .tryLock .read, .upgrade, .unlock .read, .upgrade, .tryLock .read,
        .downgrade, .tryLock .read, .unlock .write]
    let first : Guarded TicketLock TicketLock.Wait :=
      { calls := { lock := (TicketLock.ofQuotas {}).1 } }
    let second : Guarded QuotaLock Mode := { calls := { lock := QuotaLock.ofQuotas {} } }
    requests.length < 2 ^ 30 ∧
      InStep HeldAlike (Guarded.run (requests.map .request ++ [.destroy]) (some first))
        (Guarded.run (requests.map .request ++ [.destroy]) (some second)) :=
  ⟨by decide, locks_agree {} {} _ true (by decide)⟩

end SyncKit
