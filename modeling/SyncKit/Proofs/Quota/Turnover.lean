import SyncKit.Proofs.Quota.Conduct

namespace SyncKit.QuotaLock

variable {κ : Type} {h : Holds} {l l' l'' : QuotaLock} {m : Mode} {k : Nat}

/-- The mode in which the hold of the lock began, which it is released in. -/
def began (l : QuotaLock) : Option Mode := l.returnTo.or l.mode

theorem LetsIn.began (hin : LetsIn m k l l') (hr : l.returnTo = none) (hk : 0 < k) :
    l'.began = some m := by
  simp [QuotaLock.began, hin.returnTo, hr, hin.mode, Nat.ne_of_gt hk]

/-- How a lock in front of sleepers turns over while it lets in `k` callers in one mode. -/
inductive Passes (l : QuotaLock) : Mode → Nat → QuotaLock → Prop
  | goesOn {m : Mode} {k : Nat} {l' : QuotaLock} (began : l'.began = l.began)
      (granted : l'.granted.toNat = l.granted.toNat + k) (readers : 0 < k → m = .read)
      (within : 0 < k → l.writersWaiting ≠ 0 → l'.granted ≤ l.readQuota) : Passes l m k l'
  /-- The readers take over, from writers that wait only when these have used up their quota. -/
  | toReaders {k : Nat} {l' : QuotaLock} (pos : 0 < k) (began : l'.began = some .read)
      (granted : l'.granted.toNat = k)
      (due : l.writersWaiting ≠ 0 →
        l.began = some .write ∧ ¬ l.granted < l.writeQuota ∧ l'.granted ≤ l.readQuota) :
      Passes l .read k l'
  /-- The next writer takes over. It counts on from the last one only if readers wait. -/
  | toWriter {l' : QuotaLock} (began : l'.began = some .write)
      (granted : l'.granted.toNat = 1 ∧ (l.began ≠ some .write ∨ l.readersWaiting = 0) ∨
        l'.granted.toNat = l.granted.toNat + 1 ∧ l.began = some .write ∧
          l.granted < l.writeQuota) : Passes l .write 1 l'

namespace Passes

theorem idle (hb : l'.began = l.began) (hg : l'.granted = l.granted) : Passes l m 0 l' :=
  .goesOn hb (congrArg UInt32.toNat hg) (absurd · (Nat.lt_irrefl 0)) (absurd · (Nat.lt_irrefl 0))

theorem of_letsIn (hin : LetsIn .read k l l') (ha : l.active ≠ 0) (hm : l.mode = some .read) :
    Passes l .read k l' := by
  refine .goesOn ?_ hin.granted (fun _ ↦ rfl) fun hpos hwriters ↦ ?_
  · rw [began, began, hin.returnTo, hin.mode, hm]
    split <;> rfl
  · exact hin.within rfl hpos hwriters fun hfree ↦ absurd hfree ha

theorem of_began_eq {mode returnTo : Option Mode}
    (hp : Passes { l with mode, returnTo } m k l')
    (hb : began { l with mode, returnTo } = l.began) :
    Passes l m k l' := by
  cases hp with
  | goesOn began granted readers within => exact .goesOn (began.trans hb) granted readers within
  | toReaders pos began granted due =>
    rw [hb] at due
    exact .toReaders pos began granted due
  | toWriter began granted =>
    rw [hb] at granted
    exact .toWriter began granted

end Passes

theorem began_convert (haway : ∀ b, l.returnTo = some b → l.mode ≠ some b) (hm : l.mode = some m)
    {m' : Mode} (hne : m' ≠ m) :
    began { l with mode := some m', returnTo := convertedFrom m l.returnTo } = l.began := by
  cases hr : l.returnTo with
  | none => simp [began, convertedFrom, hm, hr]
  | some b =>
    have hb : b ≠ m := fun he ↦ haway b hr (he ▸ hm)
    have hsame : m' = b := by cases m <;> cases m' <;> cases b <;> first | rfl | contradiction
    simp [began, convertedFrom, hr, hsame]

theorem Tallied.began_convert {c : Contended QuotaLock Mode κ} {m' : Mode} (ht : Tallied h c)
    (hm : c.lock.mode = some m) (hne : m' ≠ m) :
    began { c.lock with mode := some m', returnTo := convertedFrom m c.lock.returnTo } =
      c.lock.began := QuotaLock.began_convert (fun b hr ↦ (ht.returnTo b hr).2) hm hne

structure Turnover (c : Contended QuotaLock Mode κ) (modes : List Mode)
    (c' : Contended QuotaLock Mode κ) : Prop where
  passes : ∃ m k, modes = List.replicate k m ∧ (c.sleepers ≠ [] → Passes c.lock m k c'.lock)
  stays : ∀ m, c.sleeping m ≤ c'.sleeping m + modes.count m
  readQuota : c'.lock.readQuota = c.lock.readQuota
  writeQuota : c'.lock.writeQuota = c.lock.writeQuota

theorem Handover.sleeping_eq {before : Nat} {sleepers : List (Sleeper κ Mode)}
    {returned : List (Returned κ Fault)} {after : Contended QuotaLock Mode κ}
    (ho : Handover h before sleepers returned after) (m : Mode) :
    after.sleeping m + (Returned.modes returned).count m = sleepers.countP (·.mode == m) := by
  have hcount : ∀ ws : List (Sleeper κ Mode),
      (Returned.modes (F := Fault) (ws.map Sleeper.granted)).count m =
        ws.countP (·.mode == m) := by
    intro ws
    rw [Returned.modes_map_granted, List.count_eq_countP, List.countP_map]
    rfl
  have hperm := (ho.conserved.filter (·.granted)).map (·.mode)
  have heq := hperm.count_eq m
  rw [List.filter_append, List.map_append, List.count_append] at heq
  change (Returned.modes returned).count m +
    (Returned.modes (after.sleepers.map Sleeper.granted)).count m =
    (Returned.modes (sleepers.map Sleeper.granted)).count m at heq
  rw [hcount, hcount] at heq
  rw [Contended.sleeping]
  omega

theorem Turnover.of_handover {c c' : Contended QuotaLock Mode κ} {before : Nat} {h : Holds}
    {returned : List (Returned κ Fault)} (ho : Handover h before c.sleepers returned c')
    (hmodes : Returned.modes returned = List.replicate k m)
    (hpasses : c.sleepers ≠ [] → Passes c.lock m k c'.lock)
    (hr : c'.lock.readQuota = c.lock.readQuota) (hw : c'.lock.writeQuota = c.lock.writeQuota) :
    Turnover c (Returned.modes returned) c' where
  passes := ⟨m, k, hmodes, hpasses⟩
  stays := fun m ↦ Nat.le_of_eq (ho.sleeping_eq m).symm
  readQuota := hr
  writeQuota := hw

theorem Turnover.nobody {c c' : Contended QuotaLock Mode κ} (hb : c'.lock.began = c.lock.began)
    (hg : c'.lock.granted = c.lock.granted) (hs : ∀ m, c.sleeping m ≤ c'.sleeping m)
    (hr : c'.lock.readQuota = c.lock.readQuota) (hw : c'.lock.writeQuota = c.lock.writeQuota) :
    Turnover c [] c' where
  passes := ⟨.read, 0, rfl, fun _ ↦ .idle hb hg⟩
  stays := hs
  readQuota := hr
  writeQuota := hw

theorem Turnover.perm {c c' : Contended QuotaLock Mode κ} {modes : List Mode}
    {sleepers : List (Sleeper κ Mode)} (ht : Turnover { c with sleepers } modes c')
    (hp : sleepers.Perm c.sleepers) : Turnover c modes c' where
  passes := by
    obtain ⟨m, k, hmodes, hpasses⟩ := ht.passes
    refine ⟨m, k, hmodes, fun hne ↦ hpasses ?_⟩
    rintro rfl
    exact hne hp.symm.eq_nil
  stays := fun m ↦ Nat.le_trans (Nat.le_of_eq (hp.countP_eq _).symm) (ht.stays m)
  readQuota := ht.readQuota
  writeQuota := ht.writeQuota

namespace Steady

variable {c : Contended QuotaLock Mode κ}

/-- A newcomer is let in past sleepers only as a reader among readers. -/
theorem turnover_seat (hs : Steady h c) (hw : c.lock.welcomes m = true)
    (hfit : c.lock.granted.toNat + 1 < 2 ^ 32) (spins : Int32) :
    Turnover c [m] { c with lock := { c.lock.seat m with spins } } where
  passes := by
    refine ⟨m, 1, rfl, fun hsome ↦ ?_⟩
    have ha := (Bool.and_eq_true_iff.1 hw).2
    have hin := hs.tallied.letsIn ha hfit (c.lock.waiting m) spins
    rw [withWaiting_waiting] at hin
    have hpos := hs.held hsome
    obtain ⟨rfl, hmode⟩ := hs.tallied.mode_of_admits ha hpos
    exact .of_letsIn hin (hs.tallied.active_ne_zero hpos) hmode
  stays := fun _ ↦ Nat.le_add_right _ _
  readQuota := rfl
  writeQuota := rfl

theorem turnover_newcomer (hs : Steady h c) {d : Demand κ} (hd : d.seeks = some m)
    (hroom : ∀ caller m, d = .call caller m → c.sleepers.length + 1 < 2 ^ 32)
    (hserved : Served h c d (c.serve d)) :
    Turnover c ((c.serve (F := Fault) d).admitted d) (c.serve (F := Fault) d).after := by
  have harrival := hs.arrives hd hroom
  generalize c.serve (F := Fault) d = out at harrival hserved ⊢
  cases harrival with
  | refused hw => exact .nobody rfl rfl (fun _ ↦ Nat.le_refl _) rfl rfl
  | asleep hw _ _ =>
    refine .nobody ?_ (granted_withWaiting ..) (fun m' ↦ ?_) (by cases m <;> rfl)
      (by cases m <;> rfl)
    · simp only [began, returnTo_withWaiting, mode_withWaiting]
    · simp only [Contended.sleeping, List.countP_append]
      exact Nat.le_add_right _ _
  | @seated spins hw hfit hspins =>
    rw [Outcome.admitted, hd]
    exact hs.turnover_seat hw hfit spins
  | full => exact absurd rfl (hserved.reply_ne_fault _)

/-- The last holder leaves. The mode in which its hold began decides who comes next. -/
theorem turnover_handOff (hs : Steady h c) (hquota : c.lock.readQuota ≠ 0) {b : Mode}
    (hb : c.lock.began = some b) :
    let vacant := { c.lock with active := 0, mode := some b, returnTo := none }
    let run := Contended.settle vacant.handOff c.sleepers
    Turnover c (Returned.modes run.returned) ⟨run.lock, run.asleep⟩ := by
  intro vacant run
  obtain ⟨mode, granted, signals, hsignals, hlock, ht, hhands, ho, hfit, hsome⟩ :=
    hs.handedOff (rfl : vacant = _) (rfl : run = _)
  have hquotas {m : Mode} {k : Nat} (hin : LetsIn m k vacant.handOff.lock run.lock) :
      run.lock.readQuota = c.lock.readQuota ∧ run.lock.writeQuota = c.lock.writeQuota := by
    rw [hin.readQuota, hin.writeQuota, hlock]
    exact ⟨rfl, rfl⟩
  have hreturn : vacant.handOff.lock.returnTo = none := by rw [hlock]
  cases hhands with
  | toNobody =>
    have hsilent : run = _ := Contended.settle_of_silent hsignals c.sleepers
    refine .of_handover ho (m := .read) (k := 0) ?_ (fun hne ↦ ?_) ?_ ?_
    · rw [hsilent]
      rfl
    · have hlen := hsome hne
      rw [hsilent] at hlen
      exact absurd hlen (Nat.lt_irrefl 0)
    · rw [hsilent]
      exact (congrArg QuotaLock.readQuota hlock :)
    · rw [hsilent]
      exact (congrArg QuotaLock.writeQuota hlock :)
  | toWriter _ hcount =>
    obtain ⟨hin, hmodes⟩ := letsIn_settle (.inl rfl) ht hsignals hfit
    obtain ⟨hread, hwrite⟩ := hquotas hin
    refine .of_handover ho hmodes (fun hne ↦ ?_) hread hwrite
    have hk := hsome hne
    have hmode : run.lock.mode = some .write := hin.mode.trans (if_neg (Nat.ne_of_gt hk))
    have hcounted := ho.counted
    dsimp only at hcounted
    rw [ho.returned_eq_one hmode hk] at hcounted ⊢
    refine .toWriter (hin.began hreturn hk) ?_
    rw [hcounted, hlock]
    rcases hcount with ⟨rfl, rfl | hr⟩ | ⟨rfl, rfl, hlt⟩
    · exact .inl ⟨rfl, .inl (by rw [hb]; nofun)⟩
    · exact .inl ⟨rfl, .inr hr⟩
    · exact .inr ⟨rfl, hb, hlt⟩
  | toReaders _ hdue =>
    obtain ⟨hin, hmodes⟩ := letsIn_settle (.inr rfl) ht hsignals hfit
    obtain ⟨hread, hwrite⟩ := hquotas hin
    refine .of_handover ho hmodes (fun hne ↦ ?_) hread hwrite
    have hk := hsome hne
    have hwithin := hin.within rfl hk
    rw [hlock] at hwithin
    have hcounted := ho.counted
    rw [hlock] at hcounted
    refine .toReaders hk (hin.began hreturn hk) (hcounted.trans (Nat.zero_add _)) fun hwriters ↦ ?_
    rcases hdue with hnone | ⟨rfl, hspent⟩
    · exact absurd hnone hwriters
    · refine ⟨hb, hspent, hwithin hwriters fun _ ↦ ?_⟩
      rw [UInt32.lt_iff_toNat_lt]
      exact Nat.pos_of_ne_zero fun hq ↦ hquota (UInt32.toNat_inj.1 hq)

theorem turnover_unlock (hs : Steady h c) (hquota : c.lock.readQuota ≠ 0) (hpos : 0 < h.of m) :
    Turnover c ((c.request (F := Fault) (.unlock m)).admitted (.request (.unlock m)))
      (c.request (F := Fault) (.unlock m)).after := by
  have ht := hs.tallied
  obtain ⟨hmode, htotal⟩ := ht.of_pos_iff.1 hpos
  by_cases hone : c.lock.active = 1
  · obtain ⟨b, hb, hstep⟩ := unlock_of_last hmode hone
    have hturn := hs.turnover_handOff hquota hb
    dsimp only at hturn
    rw [← hstep] at hturn
    rw [Outcome.admitted_of_seeks_eq_none rfl]
    exact hturn
  · have hactive := ht.active_ne_zero htotal
    rw [Contended.request_of_done (r := .unlock m) (unlock_of_shared hmode hactive hone)]
    exact .nobody rfl rfl (fun _ ↦ Nat.le_refl _) rfl rfl

theorem turnover_upgrade (hs : Steady h c) (hpos : 0 < h.reads) :
    Turnover c ((c.request (F := Fault) .upgrade).admitted (.request .upgrade))
      (c.request (F := Fault) .upgrade).after := by
  have ht := hs.tallied
  obtain ⟨hmode, htotal⟩ := ht.of_pos_iff.1 (show 0 < h.of .read from hpos)
  by_cases hone : c.lock.active = 1
  · rw [Contended.request_of_done (r := .upgrade) (upgrade_of_alone hmode hone)]
    exact .nobody (ht.began_convert hmode (by decide)) rfl (fun _ ↦ Nat.le_refl _) rfl rfl
  · have hactive := ht.active_ne_zero htotal
    rw [Contended.request_of_done (r := .upgrade) (upgrade_of_shared hmode hactive hone)]
    exact .nobody rfl rfl (fun _ ↦ Nat.le_refl _) rfl rfl

theorem turnover_downgrade (hs : Steady h c) (hpos : 0 < h.writes)
    (hfit : c.lock.granted.toNat +
      (c.request (F := Fault) .downgrade).grants (.request .downgrade) < 2 ^ 32) :
    Turnover c ((c.request (F := Fault) .downgrade).admitted (.request .downgrade))
      (c.request (F := Fault) .downgrade).after := by
  have ht := hs.tallied
  obtain ⟨hmode, halone, hone⟩ := ht.write_held hpos
  have hactive : c.lock.active ≠ 0 := by rw [halone]; decide
  have hbegan := ht.began_convert hmode (show Mode.read ≠ .write by decide)
  have hconvert := ht.convert hone .write .read (by decide)
  obtain ⟨signals, hsignals, hstep⟩ := downgrade_of_held hmode halone
  have hlock : c.lock.downgrade.lock = { c.lock with
      mode := some .read, returnTo := convertedFrom .write c.lock.returnTo } := by rw [hstep]
  rw [Outcome.admitted_of_seeks_eq_none rfl]
  let run := Contended.settle c.lock.downgrade c.sleepers
  change Turnover c (Returned.modes run.returned) ⟨run.lock, run.asleep⟩
  rcases hsignals with rfl | rfl
  · have hsilent : run = _ := Contended.settle_of_silent (by rw [hstep]) c.sleepers
    rw [hsilent, hlock]
    exact .nobody hbegan rfl (fun _ ↦ Nat.le_refl _) rfl rfl
  · rw [← hlock] at hconvert
    have hfit : c.lock.downgrade.lock.granted.toNat + run.returned.length < 2 ^ 32 := by
      rw [hlock]
      exact Nat.lt_of_le_of_lt (Nat.add_le_add_left (Nat.le_add_left _ _) _) hfit
    have ho := handover_settle c.lock.downgrade hconvert hfit
    obtain ⟨hin, hmodes⟩ := letsIn_settle (.inr rfl) hconvert (by rw [hstep]) hfit
    have hread := hin.readQuota
    have hwrite := hin.writeQuota
    rw [hlock] at hin hread hwrite
    exact .of_handover ho hmodes (fun _ ↦ (Passes.of_letsIn hin hactive rfl).of_began_eq hbegan)
      hread hwrite

end Steady

theorem Served.turnover {c : Contended QuotaLock Mode κ} {d : Demand κ} (hs : Steady h c)
    (hquota : c.lock.readQuota ≠ 0) (hserved : Served h c d (c.serve d))
    (hroom : ∀ caller m, d = .call caller m → c.sleepers.length + 1 < 2 ^ 32)
    (hfit : c.lock.granted.toNat + (c.serve (F := Fault) d).grants d < 2 ^ 32) :
    Turnover c ((c.serve (F := Fault) d).admitted d) (c.serve (F := Fault) d).after := by
  cases d with
  | call caller m => exact hs.turnover_newcomer rfl hroom hserved
  | request r =>
    have hp := hserved.permits hs
    cases r with
    | tryLock m => exact hs.turnover_newcomer rfl hroom hserved
    | unlock m => exact hs.turnover_unlock hquota hp
    | upgrade => exact hs.turnover_upgrade hp
    | downgrade => exact hs.turnover_downgrade hp hfit

end SyncKit.QuotaLock
