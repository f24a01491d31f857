import SyncKit.Proofs.Lock.Grants
import SyncKit.Proofs.Quota.Serving

namespace SyncKit.QuotaLock

variable {κ : Type} {h : Holds} {c : Contended QuotaLock Mode κ}

/-- A demand that was met, refused or put to sleep, but did not fault. -/
structure Served (h : Holds) (c : Contended QuotaLock Mode κ) (d : Demand κ)
    (out : Outcome QuotaLock Mode Fault κ) : Prop where
  faultless : out.faultless = true
  steady : Steady (out.settle d h) out.after
  counted : out.after.lock.granted.toNat ≤ c.lock.granted.toNat + out.grants d

theorem Served.reply_ne_fault {d : Demand κ} {out : Outcome QuotaLock Mode Fault κ}
    (hs : Served h c d out) (f : Fault) : out.reply ≠ .fault f := by
  intro hreply
  have hfaultless := hs.faultless
  rw [Outcome.faultless, hreply] at hfaultless
  cases hfaultless

structure Misused (c : Contended QuotaLock Mode κ) (out : Outcome QuotaLock Mode Fault κ) :
    Prop where
  reply : ∃ misuse, out.reply = .fault (.notHeld misuse c.lock.holding)
  after : out.after = c
  returned : out.returned = []

/-- How a newcomer fares. Where it is not welcome it is refused or goes to sleep; where it is, it
comes in, if there is room to count its grant. -/
inductive Arrival (c : Contended QuotaLock Mode κ) (m : Mode) :
    Outcome QuotaLock Mode Fault κ → Prop
  | refused (hw : c.lock.welcomes m = false) : Arrival c m { reply := .wouldBlock, after := c }
  | asleep {caller : κ} {notes : List Note} (hw : c.lock.welcomes m = false)
      (hlen : c.sleepers.length + 1 < 2 ^ 32) (hroom : (c.lock.waiting m).toNat + 1 < 2 ^ 32) :
      Arrival c m
        { reply := .asleep, notes
          after := ⟨c.lock.withWaiting m (c.lock.waiting m + 1),
            c.sleepers ++ [⟨caller, m, c.lock.spins⟩]⟩ }
  | seated {spins : Int32} (hw : c.lock.welcomes m = true)
      (hfit : c.lock.granted.toNat + 1 < 2 ^ 32) (hspins : Spin.Settled spins) :
      Arrival c m { reply := .done, after := ⟨{ c.lock.seat m with spins }, c.sleepers⟩ }
  | full {n : UInt32} (hw : c.lock.welcomes m = true)
      (hfull : ¬ c.lock.granted.toNat + 1 < 2 ^ 32)
      (hn : c.lock.active.toNat + 1 < 2 ^ 32 → n = c.lock.active + 1) :
      Arrival c m
        { reply := .fault (.overflow .add)
          after := ⟨{ c.lock with mode := some m, active := n }, c.sleepers⟩ }

namespace Steady

theorem perm (hs : Steady h c) {sleepers : List (Sleeper κ Mode)} (hp : sleepers.Perm c.sleepers) :
    Steady h { c with sleepers } where
  tallied := hs.tallied.perm hp
  idle := fun hfree ↦ by
    obtain ⟨hgranted, hnone⟩ := hs.idle hfree
    rw [hnone] at hp
    exact ⟨hgranted, hp.eq_nil⟩
  few := hp.length_eq ▸ hs.few

theorem total_pos (hs : Steady h c) {m : Mode} (hw : c.lock.welcomes m = false) :
    0 < h.total := by
  refine Nat.pos_of_ne_zero fun hfree ↦ ?_
  have hzero : c.lock.waiting m = 0 := by
    rw [hs.tallied.waiting_eq_zero_iff, Contended.sleeping, (hs.idle hfree).2]
    rfl
  rw [welcomes, hzero, hs.tallied.admits_of_free hfree] at hw
  cases hw

theorem held (hs : Steady h c) (hsome : c.sleepers ≠ []) : 0 < h.total :=
  Nat.pos_of_ne_zero fun hfree ↦ hsome (hs.idle hfree).2

theorem seat (hs : Steady h c) {m : Mode} (ha : c.lock.admits m = true)
    (hfit : c.lock.granted.toNat + 1 < 2 ^ 32) :
    Steady (h.take m) { c with lock := c.lock.seat m } where
  tallied := hs.tallied.seat ha hfit
  idle := fun hfree ↦ by
    have htotal : (h.take m).total = h.total + 1 := by
      cases m <;> simp only [Holds.take, Holds.total] <;> omega
    omega
  few := hs.few

theorem toNat_seat {m : Mode} (hfit : c.lock.granted.toNat + 1 < 2 ^ 32) :
    (c.lock.seat m).granted.toNat = c.lock.granted.toNat + 1 :=
  Checked.toNat_of_increment (Checked.increment_of_lt hfit)

theorem arrives (hs : Steady h c) {d : Demand κ} {m : Mode} (hd : d.seeks = some m)
    (hroom : ∀ caller m, d = .call caller m → c.sleepers.length + 1 < 2 ^ 32) :
    Arrival c m (c.serve d) := by
  have ht := hs.tallied
  cases d with
  | call caller n =>
    cases hd
    cases hw : c.lock.welcomes m with
    | false =>
      have hle := c.sleeping_le m
      have hwaiting := ht.waiting m
      have hlen := hroom caller m rfl
      have hcounted : (c.lock.waiting m).toNat + 1 < 2 ^ 32 := by omega
      obtain ⟨notes, henter⟩ := enter_of_unwelcome hw hcounted
      have hcall := Contended.call_of_refused (c := c) (m := m) caller (tryLock_of_unwelcome hw)
        henter
      rw [Contended.serve, hcall]
      exact .asleep hw hlen hcounted
    | true =>
      by_cases hfit : c.lock.granted.toNat + 1 < 2 ^ 32
      · obtain ⟨spins, hspins, hcall⟩ := Contended.call_of_won (c := c) (m := m) caller ht.spins
          (tryLock_of_welcome ht hw hfit)
        rw [Contended.serve, hcall]
        exact .seated hw hfit hspins
      · obtain ⟨n, hn, hfault⟩ := tryLock_of_full hw hfit
        rw [Contended.serve, Contended.call_of_fault (c := c) (m := m) caller ht.spins hfault]
        exact .full hw hfit hn
  | request r =>
    cases r with
    | tryLock n =>
      cases hd
      cases hw : c.lock.welcomes m with
      | false =>
        rw [Contended.serve, Contended.request_of_done (r := .tryLock m) (tryLock_of_unwelcome hw)]
        exact .refused hw
      | true =>
        by_cases hfit : c.lock.granted.toNat + 1 < 2 ^ 32
        · rw [Contended.serve,
            Contended.request_of_done (r := .tryLock m) (tryLock_of_welcome ht hw hfit)]
          exact @Arrival.seated _ c m c.lock.spins hw hfit ht.spins
        · obtain ⟨n, hn, hfault⟩ := tryLock_of_full hw hfit
          rw [Contended.serve, Contended.request_of_fault (r := .tryLock m) hfault]
          exact .full hw hfit hn
    | unlock _ => cases hd
    | upgrade => cases hd
    | downgrade => cases hd

theorem served_newcomer (hs : Steady h c) {d : Demand κ} {m : Mode} (hd : d.seeks = some m)
    (hroom : ∀ caller m, d = .call caller m → c.sleepers.length + 1 < 2 ^ 32)
    (hfit : c.lock.granted.toNat + (c.serve (F := Fault) d).grants d < 2 ^ 32) :
    Served h c d (c.serve d) := by
  have ht := hs.tallied
  have harrival := hs.arrives hd hroom
  generalize c.serve (F := Fault) d = out at harrival hfit ⊢
  cases harrival with
  | refused hw => exact ⟨rfl, hs, Nat.le_add_right _ _⟩
  | @asleep caller notes hw hlen hcounted =>
    have hjoin := ht.join (s := ⟨caller, m, c.lock.spins⟩) ht.spins
      (Checked.toNat_of_increment (Checked.increment_of_lt hcounted))
    refine ⟨rfl, ⟨hjoin.perm (List.perm_append_singleton _ _), fun hfree ↦ ?_, ?_⟩, ?_⟩
    · exact absurd hfree (Nat.ne_of_gt (hs.total_pos hw))
    · rw [List.length_append]
      exact hlen
    · dsimp only
      rw [granted_withWaiting]
      exact Nat.le_add_right _ _
  | seated hw hroom' hspins =>
    have hseat := hs.seat (Bool.and_eq_true_iff.1 hw).2 hroom'
    refine ⟨rfl, ?_, ?_⟩
    · rw [Outcome.settle_of_done rfl rfl, Holds.met_of_seeks hd]
      exact ⟨hseat.tallied.withSpins hspins, hseat.idle, hseat.few⟩
    · rw [Outcome.grants, hd]
      exact Nat.le_of_eq (toNat_seat (m := m) hroom')
  | full hw hfull hn =>
    -- The attempt counts as a grant, and there was no room for it.
    rw [Outcome.grants, hd] at hfit
    exact absurd hfit hfull

section Requests

theorem vacated (hs : Steady h c) (b : Mode) :
    let vacant := { c.lock with active := 0, mode := some b, returnTo := none }
    ∃ mode granted signals,
      vacant.handOff.result = .ok .done ∧ vacant.handOff.signals = signals ∧
        vacant.handOff.lock = { c.lock with active := 0, mode, granted, returnTo := none } ∧
        Tallied {} ⟨vacant.handOff.lock, c.sleepers⟩ ∧ Hands b vacant signals granted := by
  intro vacant
  obtain ⟨mode, granted, signals, notes, hstep, hhands⟩ :=
    handOff_hands (l := vacant) (b := b) rfl
  refine ⟨mode, granted, signals, ?_, ?_, ?_, ?_, hhands⟩
  · rw [hstep]
  · rw [hstep]
  · rw [hstep]
  · rw [hstep]
    exact hs.tallied.vacate mode granted

/-- The last release grants the lock to somebody if anybody sleeps. -/
theorem handOff (hs : Steady h c) {b : Mode} :
    let vacant := { c.lock with active := 0, mode := some b, returnTo := none }
    let step := vacant.handOff
    let run := Contended.settle step c.sleepers
    step.result = .ok .done ∧ step.lock.granted.toNat ≤ c.lock.granted.toNat ∧
      Handover {} step.lock.granted.toNat c.sleepers run.returned ⟨run.lock, run.asleep⟩ ∧
      (run.returned = [] → run.lock.granted = 0 ∧ run.asleep = []) := by
  intro vacant step run
  obtain ⟨mode, granted, signals, hresult, hsignals, hlock, ht, hhands⟩ := hs.vacated b
  have hgranted : step.lock.granted = granted := congrArg QuotaLock.granted hlock
  have hread : c.lock.readersWaiting.toNat = c.sleeping .read := hs.tallied.waiting .read
  have hwrite : c.lock.writersWaiting.toNat = c.sleeping .write := hs.tallied.waiting .write
  have hfew := hs.few
  refine ⟨hresult, ?_⟩
  cases hhands with
  | toNobody hr hw =>
    have hasleep : c.sleepers = [] := by
      have hlen := c.length_sleepers
      rw [← hread, ← hwrite, show c.lock.readersWaiting = 0 from hr,
        show c.lock.writersWaiting = 0 from hw] at hlen
      exact List.eq_nil_of_length_eq_zero hlen
    have hsilent := Contended.settle_of_silent hsignals c.sleepers
    refine ⟨?_, handover_silent ht hsignals, fun _ ↦ ?_⟩
    · rw [hgranted]
      exact Nat.zero_le _
    · simp only [run, step, vacant, hsilent]
      exact ⟨hgranted, hasleep⟩
  | toWriter hpos hcount =>
    have hwoken := Contended.length_split_one c.sleepers .write
    have hpos' : 0 < c.sleepers.countP (·.mode == .write) := by
      rw [gt_iff_lt, UInt32.lt_iff_toNat_lt] at hpos
      exact Nat.lt_of_lt_of_eq hpos hwrite
    have hroom : granted.toNat ≤ c.lock.granted.toNat ∧ granted.toNat + 1 < 2 ^ 32 := by
      rcases hcount with ⟨rfl, -⟩ | ⟨rfl, -, hlt⟩
      · exact ⟨Nat.zero_le _, by decide⟩
      · change c.lock.granted < c.lock.writeQuota at hlt
        rw [UInt32.lt_iff_toNat_lt] at hlt
        have := c.lock.writeQuota.toNat_lt
        exact ⟨Nat.le_refl _, Nat.lt_of_le_of_lt hlt this⟩
    have hfit : step.lock.granted.toNat + ((Signal.one .write).split c.sleepers).1.length <
        2 ^ 32 := by
      rw [hgranted]
      omega
    obtain ⟨ho, hne⟩ := handover_woken ht hsignals rfl (by omega) hfit
    exact ⟨hgranted ▸ hroom.1, ho, fun hnil ↦ absurd hnil hne⟩
  | toReaders hpos hdue =>
    have hwoken := Contended.length_split_all c.sleepers .read
    have hpos' : 0 < c.sleepers.countP (·.mode == .read) := by
      rw [gt_iff_lt, UInt32.lt_iff_toNat_lt] at hpos
      exact Nat.lt_of_lt_of_eq hpos hread
    have hle : c.sleepers.countP (·.mode == .read) ≤ c.sleepers.length := List.countP_le_length
    have hzero : step.lock.granted.toNat = 0 := congrArg UInt32.toNat hgranted
    have hfit : step.lock.granted.toNat + ((Signal.all .read).split c.sleepers).1.length <
        2 ^ 32 := by omega
    obtain ⟨ho, hne⟩ := handover_woken ht hsignals rfl (by omega) hfit
    exact ⟨hzero ▸ Nat.zero_le _, ho, fun hnil ↦ absurd hnil hne⟩

/-- What the last release signals and what comes of it: it grants no more than it can count. -/
theorem handedOff (hs : Steady h c) {b : Mode} {vacant : QuotaLock}
    {run : Aftermath QuotaLock Mode Fault κ}
    (hv : vacant = { c.lock with active := 0, mode := some b, returnTo := none })
    (hrun : run = Contended.settle vacant.handOff c.sleepers) :
    ∃ mode granted signals, vacant.handOff.signals = signals ∧
      vacant.handOff.lock = { c.lock with active := 0, mode, granted, returnTo := none } ∧
      Tallied {} ⟨vacant.handOff.lock, c.sleepers⟩ ∧ Hands b vacant signals granted ∧
      Handover {} vacant.handOff.lock.granted.toNat c.sleepers run.returned
        ⟨run.lock, run.asleep⟩ ∧
      vacant.handOff.lock.granted.toNat + run.returned.length < 2 ^ 32 ∧
      (c.sleepers ≠ [] → 0 < run.returned.length) := by
  obtain ⟨-, -, ho, hnobody⟩ := hs.handOff (b := b)
  obtain ⟨mode, granted, signals, -, hsignals, hlock, ht, hhands⟩ := hs.vacated b
  subst hv hrun
  refine ⟨mode, granted, signals, hsignals, hlock, ht, hhands, ho, ?_,
    ho.returned_pos fun hnil ↦ (hnobody hnil).2⟩
  rw [← ho.counted]
  exact UInt32.toNat_lt _

theorem unlock (hs : Steady h c) {m : Mode} (hpos : 0 < h.of m) :
    let out := c.request (F := Fault) (.unlock m)
    out.reply = .done ∧
      (∃ before, before ≤ c.lock.granted.toNat ∧
        Handover (h.release m) before c.sleepers out.returned out.after) ∧
      Steady (Returned.welcome out.returned (h.release m)) out.after := by
  have ht := hs.tallied
  obtain ⟨hmode, htotal⟩ := ht.of_pos_iff.1 hpos
  by_cases hone : h.total = 1
  · have hactive := ht.active_eq_one_iff.2 hone
    obtain ⟨b, -, hstep⟩ := unlock_of_last hmode hactive
    obtain ⟨hresult, hle, ho, hidle⟩ := hs.handOff (b := b)
    rw [← hstep] at hresult hle ho hidle
    rw [ht.release_eq_empty hpos hone]
    exact ⟨congrArg Reply.ofAttempt hresult, ⟨_, hle, ho⟩, ho.steady hs.few fun _ ↦ hidle⟩
  · have hshared : 1 < h.total := by omega
    have hleave := ht.leave hpos hshared
    have hactive := ht.active_ne_zero htotal
    have hrest : (h.release m).total ≠ 0 := by
      cases m <;> simp only [Holds.release, Holds.of, Holds.total] at hpos hshared ⊢ <;> omega
    rw [Contended.request_of_done (r := .unlock m)
      (unlock_of_shared hmode hactive (mt ht.active_eq_one_iff.1 hone))]
    exact ⟨rfl, ⟨_, Nat.le_refl _, .nobody hleave⟩, hleave, fun hfree ↦ absurd hfree hrest, hs.few⟩

theorem served_unlock (hs : Steady h c) {m : Mode} (hpos : 0 < h.of m) :
    Served h c (.request (.unlock m)) (c.request (.unlock m)) := by
  obtain ⟨hreply, ⟨before, hbefore, ho⟩, hsteady⟩ := hs.unlock hpos
  refine ⟨?_, ?_, ?_⟩
  · rw [Outcome.faultless, hreply]
    exact ho.granted
  · rw [Outcome.settle, hreply]
    exact hsteady
  · refine Nat.le_trans (Nat.le_of_eq ho.counted) ?_
    exact Nat.add_le_add hbefore (Nat.le_add_left _ _)

theorem upgrade (hs : Steady h c) (hpos : 0 < h.reads) :
    Served h c (.request .upgrade) (c.request .upgrade) := by
  have ht := hs.tallied
  obtain ⟨hmode, htotal⟩ := ht.of_pos_iff.1 (show 0 < h.of .read from hpos)
  by_cases hone : h.total = 1
  · have htaken : (h.release .read).take .write = Holds.take .write {} := by
      rw [ht.release_eq_empty (show 0 < h.of .read from hpos) hone]
    have hconvert := ht.convert hone .read .write (by decide)
    rw [Contended.request_of_done (r := .upgrade)
      (upgrade_of_alone hmode (ht.active_eq_one_iff.2 hone))]
    refine ⟨rfl, ?_, Nat.le_add_right _ _⟩
    change Steady ((h.release .read).take .write) _
    rw [htaken]
    exact ⟨hconvert, fun hfree ↦ absurd hfree Nat.one_ne_zero, hs.few⟩
  · have hactive := ht.active_ne_zero htotal
    rw [Contended.request_of_done (r := .upgrade)
      (upgrade_of_shared hmode hactive fun ho ↦ hone (ht.active_eq_one_iff.1 ho))]
    exact ⟨rfl, hs, Nat.le_add_right _ _⟩

theorem downgraded (hs : Steady h c) (hpos : 0 < h.writes) :
    (h.release .write).take .read = Holds.take .read {} ∧
      c.lock.downgrade.result = .ok .done ∧ c.lock.downgrade.lock.granted = c.lock.granted ∧
      Tallied (Holds.take .read {}) ⟨c.lock.downgrade.lock, c.sleepers⟩ := by
  have ht := hs.tallied
  obtain ⟨hmode, hactive, hone⟩ := ht.write_held hpos
  obtain ⟨signals, -, hstep⟩ := downgrade_of_held hmode hactive
  refine ⟨?_, ?_, ?_, ?_⟩
  · rw [ht.release_eq_empty (show 0 < h.of .write from hpos) hone]
  · rw [hstep]
  · rw [hstep]
  · rw [hstep]
    exact ht.convert hone .write .read (by decide)

theorem downgrade (hs : Steady h c) (hpos : 0 < h.writes)
    (hfit : c.lock.granted.toNat +
      (c.request (F := Fault) .downgrade).grants (.request .downgrade) < 2 ^ 32) :
    Served h c (.request .downgrade) (c.request .downgrade) := by
  obtain ⟨htaken, hresult, hgranted, hconvert⟩ := hs.downgraded hpos
  have ho := handover_settle c.lock.downgrade hconvert (by
    rw [hgranted]
    exact Nat.lt_of_le_of_lt (Nat.add_le_add_left (Nat.le_add_left _ _) _) hfit)
  have hreply : (c.request (F := Fault) .downgrade).reply = .done :=
    congrArg Reply.ofAttempt hresult
  refine ⟨?_, ?_, ?_⟩
  · rw [Outcome.faultless, hreply]
    exact ho.granted
  · rw [Outcome.settle, hreply]
    change Steady (Returned.welcome _ ((h.release .write).take .read)) _
    rw [htaken]
    exact ho.steady hs.few fun hfree ↦ absurd hfree Nat.one_ne_zero
  · refine Nat.le_trans (Nat.le_of_eq ho.counted) ?_
    rw [hgranted]
    exact Nat.add_le_add_left (Nat.le_add_left _ _) _

end Requests

end Steady

section Misuse

theorem Misused.of_step {r : Request} (misuse : Misuse)
    (h : RawLock.request r c.lock = c.lock.misused misuse) : Misused c (c.request r) := by
  rw [Contended.request_of_fault h]
  exact ⟨⟨misuse, rfl⟩, rfl, rfl⟩

theorem misused_unlock (ht : Tallied h c) {m : Mode} (hn : ¬ 0 < h.of m) :
    Misused c (c.request (.unlock m)) := by
  refine .of_step (.release m) (unlock_of_not_held ?_)
  rw [ht.of_pos_iff] at hn
  rw [ht.active_eq_zero_iff]
  by_cases hz : h.total = 0
  · exact .inl hz
  · exact .inr fun hm ↦ hn ⟨hm, Nat.pos_of_ne_zero hz⟩

theorem misused_request (ht : Tallied h c) {r : Request} (hn : ¬ h.Permits r) :
    Misused c (c.request r) := by
  cases r with
  | tryLock m => exact absurd trivial hn
  | unlock m => exact misused_unlock ht hn
  | upgrade =>
    change ¬ 0 < h.of .read at hn
    rw [ht.of_pos_iff] at hn
    refine .of_step .upgrade (upgrade_of_not_held ?_)
    rw [ht.active_eq_zero_iff]
    by_cases hz : h.total = 0
    · exact .inr hz
    · exact .inl fun hm ↦ hn ⟨hm, Nat.pos_of_ne_zero hz⟩
  | downgrade =>
    change ¬ 0 < h.of .write at hn
    rw [ht.of_pos_iff] at hn
    refine .of_step .downgrade (downgrade_of_not_held ?_)
    rw [Ne, Ne, ht.active_eq_one_iff]
    by_cases hm : c.lock.mode = some .write
    · exact .inr fun ho ↦ hn ⟨hm, ho ▸ Nat.one_pos⟩
    · exact .inl hm

end Misuse

theorem Served.permits (hs : Steady h c) {r : Request}
    (hserved : Served h c (.request r) (c.request r)) : h.Permits r := by
  apply Classical.byContradiction
  intro hn
  obtain ⟨misuse, hreply⟩ := (misused_request hs.tallied hn).reply
  exact hserved.reply_ne_fault _ hreply

/-- Whatever is asked of a steady lock is served, unless it gives back or converts a hold that is
not there, which changes nothing. -/
theorem Steady.serve (hs : Steady h c) (d : Demand κ)
    (hroom : ∀ caller m, d = .call caller m → c.sleepers.length + 1 < 2 ^ 32)
    (hfit : c.lock.granted.toNat + (c.serve (F := Fault) d).grants d < 2 ^ 32) :
    Served h c d (c.serve d) ∨ (∃ r, d = .request r ∧ ¬ h.Permits r) ∧ Misused c (c.serve d) := by
  cases d with
  | call caller m => exact .inl (hs.served_newcomer rfl hroom hfit)
  | request r =>
    by_cases hp : h.Permits r
    · left
      cases r with
      | tryLock m => exact hs.served_newcomer rfl hroom hfit
      | unlock m => exact hs.served_unlock hp
      | upgrade => exact hs.upgrade hp
      | downgrade => exact hs.downgrade hp hfit
    · exact .inr ⟨⟨r, rfl, hp⟩, misused_request hs.tallied hp⟩

end SyncKit.QuotaLock
