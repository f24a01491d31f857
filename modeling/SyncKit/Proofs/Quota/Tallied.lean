import SyncKit.Lock.Quota
import SyncKit.Proofs.Lock.Waking

namespace SyncKit.QuotaLock

variable {κ : Type}

section Waiting

variable (m : Mode) (n : UInt32) (l : QuotaLock)

@[simp] theorem active_withWaiting : (l.withWaiting m n).active = l.active := by cases m <;> rfl

@[simp] theorem mode_withWaiting : (l.withWaiting m n).mode = l.mode := by cases m <;> rfl

@[simp] theorem granted_withWaiting : (l.withWaiting m n).granted = l.granted := by cases m <;> rfl

@[simp] theorem returnTo_withWaiting : (l.withWaiting m n).returnTo = l.returnTo := by
  cases m <;> rfl

@[simp] theorem spins_withWaiting : (l.withWaiting m n).spins = l.spins := by cases m <;> rfl

@[simp] theorem waiting_withWaiting_self : (l.withWaiting m n).waiting m = n := by cases m <;> rfl

theorem waiting_withWaiting_of_ne {m' : Mode} (h : m' ≠ m) :
    (l.withWaiting m n).waiting m' = l.waiting m' := by
  cases m <;> cases m' <;> first | rfl | exact absurd rfl h

@[simp] theorem withWaiting_waiting : l.withWaiting m (l.waiting m) = l := by cases m <;> rfl

@[simp] theorem withWaiting_withWaiting (k : UInt32) :
    (l.withWaiting m k).withWaiting m n = l.withWaiting m n := by cases m <;> rfl

/-- Whether a bid is admitted does not depend on how many of its own mode wait. -/
@[simp] theorem admits_withWaiting : (l.withWaiting m n).admits m = l.admits m := by
  cases m <;> rfl

end Waiting

theorem admits_held {l : QuotaLock} {m : Mode} (ha : l.admits m = true) (hheld : l.active ≠ 0) :
    m = .read ∧ l.mode = some .read := by
  cases m with
  | read =>
    simp only [admits, Bool.or_eq_true, beq_iff_eq, hheld, false_or, Bool.and_eq_true] at ha
    exact ⟨rfl, ha.1⟩
  | write =>
    simp only [admits, beq_iff_eq] at ha
    exact absurd ha hheld

/-- The fields of the lock account for the grants that are out and for the calls asleep. -/
structure Tallied (h : Holds) (c : Contended QuotaLock Mode κ) : Prop where
  active : c.lock.active.toNat = h.total
  mode : ∀ m, 0 < h.of m → c.lock.mode = some m
  alone : h.writes ≤ 1
  waiting : ∀ m, (c.lock.waiting m).toNat = c.sleeping m
  granted : h.total ≤ c.lock.granted.toNat
  returnTo : ∀ m, c.lock.returnTo = some m → 0 < h.total ∧ c.lock.mode ≠ some m
  spins : Spin.Settled c.lock.spins
  estimates : ∀ s ∈ c.sleepers, Spin.Settled s.estimate

namespace Tallied

variable {h : Holds} {c : Contended QuotaLock Mode κ} {m : Mode}

theorem active_eq_zero_iff (ht : Tallied h c) : c.lock.active = 0 ↔ h.total = 0 := by
  rw [← UInt32.toNat_inj, ht.active]
  rfl

theorem active_pos_iff (ht : Tallied h c) : 0 < c.lock.active ↔ 0 < h.total := by
  rw [UInt32.lt_iff_toNat_lt, ht.active]
  rfl

theorem active_ne_zero (ht : Tallied h c) (hpos : 0 < h.total) : c.lock.active ≠ 0 :=
  fun hz ↦ Nat.ne_of_gt hpos (ht.active_eq_zero_iff.1 hz)

theorem active_eq_one_iff (ht : Tallied h c) : c.lock.active = 1 ↔ h.total = 1 := by
  rw [← UInt32.toNat_inj, ht.active]
  rfl

theorem waiting_eq_zero_iff (ht : Tallied h c) : c.lock.waiting m = 0 ↔ c.sleeping m = 0 := by
  rw [← UInt32.toNat_inj, ht.waiting]
  rfl

theorem waiting_of_eq (ht : Tallied h c) {l : QuotaLock}
    (hr : l.readersWaiting = c.lock.readersWaiting)
    (hw : l.writersWaiting = c.lock.writersWaiting) (m : Mode) :
    (l.waiting m).toNat = c.sleeping m := by
  cases m with
  | read => exact (congrArg UInt32.toNat hr).trans (ht.waiting .read)
  | write => exact (congrArg UInt32.toNat hw).trans (ht.waiting .write)

theorem reads_eq_zero (ht : Tallied h c) (hw : 0 < h.writes) : h.reads = 0 := by
  refine Nat.eq_zero_of_not_pos fun hr ↦ ?_
  have hread := ht.mode .read hr
  have hwrite := ht.mode .write hw
  rw [hread] at hwrite
  cases hwrite

theorem of_eq_total (ht : Tallied h c) (hpos : 0 < h.of m) : h.of m = h.total := by
  cases m with
  | read =>
    have hw : ¬ 0 < h.writes := fun hw ↦ by
      have hr := ht.reads_eq_zero hw
      change 0 < h.reads at hpos
      omega
    change h.reads = h.reads + h.writes
    omega
  | write =>
    have hr := ht.reads_eq_zero hpos
    change h.writes = h.reads + h.writes
    omega

theorem of_pos_iff (ht : Tallied h c) : 0 < h.of m ↔ c.lock.mode = some m ∧ 0 < h.total := by
  refine ⟨fun hpos ↦ ⟨ht.mode m hpos, ht.of_eq_total hpos ▸ hpos⟩, fun ⟨hmode, hpos⟩ ↦ ?_⟩
  obtain ⟨m', hm'⟩ := Holds.exists_of_pos hpos
  have hsame := (ht.mode m' hm').symm.trans hmode
  cases hsame
  exact hm'

theorem exists_mode (ht : Tallied h c) (hpos : 0 < h.total) : ∃ m, c.lock.mode = some m :=
  (Holds.exists_of_pos hpos).imp ht.mode

theorem total_le_one (ht : Tallied h c) (hm : c.lock.mode = some .write) : h.total ≤ 1 := by
  refine Nat.le_of_not_lt fun hlt ↦ ?_
  have hw := ht.of_pos_iff.2 ⟨hm, Nat.lt_trans Nat.one_pos hlt⟩
  have hsum := ht.of_eq_total hw
  have := ht.alone
  change h.writes = h.total at hsum
  omega

theorem write_held (ht : Tallied h c) (hpos : 0 < h.writes) :
    c.lock.mode = some .write ∧ c.lock.active = 1 ∧ h.total = 1 := by
  obtain ⟨hmode, htotal⟩ := ht.of_pos_iff.1 (show 0 < h.of .write from hpos)
  have hone : h.total = 1 := Nat.le_antisymm (ht.total_le_one hmode) htotal
  exact ⟨hmode, ht.active_eq_one_iff.2 hone, hone⟩

theorem returnTo_eq_none (ht : Tallied h c) (hfree : h.total = 0) : c.lock.returnTo = none := by
  cases hr : c.lock.returnTo with
  | none => rfl
  | some m => exact absurd hfree (Nat.ne_of_gt (ht.returnTo m hr).1)

theorem admits_write_eq (ht : Tallied h c) : c.lock.admits .write = decide (h.total = 0) := by
  rw [Bool.eq_iff_iff, admits, beq_iff_eq, ht.active_eq_zero_iff, decide_eq_true_iff]

theorem admits_of_free (ht : Tallied h c) (hfree : h.total = 0) (m : Mode) :
    c.lock.admits m = true := by
  have hactive := ht.active_eq_zero_iff.2 hfree
  cases m <;> simp [admits, hactive]

theorem mode_of_admits (ht : Tallied h c) (ha : c.lock.admits m = true) (hpos : 0 < h.total) :
    m = .read ∧ c.lock.mode = some .read := admits_held ha (ht.active_ne_zero hpos)

theorem perm (ht : Tallied h c) {sleepers : List (Sleeper κ Mode)}
    (hp : sleepers.Perm c.sleepers) : Tallied h { c with sleepers } :=
  { ht with
    waiting := fun m ↦ (ht.waiting m).trans (hp.countP_eq _).symm
    estimates := fun s hs ↦ ht.estimates s (hp.mem_iff.1 hs) }

theorem withSpins (ht : Tallied h c) {spins : Int32} (hs : Spin.Settled spins) :
    Tallied h { c with lock.spins := spins } :=
  { ht with
    waiting := ht.waiting_of_eq rfl rfl
    spins := hs }

/-- Sleepers of one mode come or go, and are counted again. -/
theorem recount {l : QuotaLock} {sleepers sleepers' : List (Sleeper κ Mode)}
    (ht : Tallied h ⟨l, sleepers⟩) {n : UInt32} (hn : n.toNat = sleepers'.countP (·.mode == m))
    (hothers : ∀ m', m' ≠ m → sleepers'.countP (·.mode == m') = sleepers.countP (·.mode == m'))
    (he : ∀ s ∈ sleepers', Spin.Settled s.estimate) :
    Tallied h ⟨l.withWaiting m n, sleepers'⟩ where
  active := by rw [active_withWaiting]; exact ht.active
  mode := fun m' hm ↦ by rw [mode_withWaiting]; exact ht.mode m' hm
  alone := ht.alone
  waiting := fun m' ↦ by
    by_cases hm : m' = m
    · rw [hm, waiting_withWaiting_self]
      exact hn
    · rw [waiting_withWaiting_of_ne _ _ _ hm]
      exact (ht.waiting m').trans (hothers m' hm).symm
  granted := by rw [granted_withWaiting]; exact ht.granted
  returnTo := by rw [returnTo_withWaiting, mode_withWaiting]; exact ht.returnTo
  spins := by rw [spins_withWaiting]; exact ht.spins
  estimates := he

theorem join {l : QuotaLock} {sleepers : List (Sleeper κ Mode)} (ht : Tallied h ⟨l, sleepers⟩)
    {s : Sleeper κ Mode} (he : Spin.Settled s.estimate) {n : UInt32}
    (hn : n.toNat = (l.waiting s.mode).toNat + 1) :
    Tallied h ⟨l.withWaiting s.mode n, s :: sleepers⟩ := by
  refine ht.recount ?_ (fun m' hne ↦ ?_) (List.forall_mem_cons.2 ⟨he, ht.estimates⟩)
  · rw [Contended.countP_mode_cons, if_pos rfl, hn, ht.waiting]
    rfl
  · rw [Contended.countP_mode_cons, if_neg (Ne.symm hne), Nat.add_zero]

theorem part {l : QuotaLock} {s : Sleeper κ Mode} {sleepers : List (Sleeper κ Mode)}
    (ht : Tallied h ⟨l, s :: sleepers⟩) {n : UInt32}
    (hn : n.toNat + 1 = (l.waiting s.mode).toNat) :
    Tallied h ⟨l.withWaiting s.mode n, sleepers⟩ := by
  refine ht.recount ?_ (fun m' hne ↦ ?_) fun t hmem ↦ ht.estimates t (List.mem_cons_of_mem s hmem)
  · have hw := hn.trans (ht.waiting s.mode)
    rw [Contended.sleeping, Contended.countP_mode_cons, if_pos rfl] at hw
    exact Nat.succ_inj.1 hw
  · rw [Contended.countP_mode_cons, if_neg (Ne.symm hne), Nat.add_zero]

end Tallied

end SyncKit.QuotaLock
