import SyncKit.Proofs.Quota.Turnover

namespace SyncKit.QuotaLock

variable {κ : Type} {h : Holds} {l : QuotaLock} {m : Mode}

/-- Readers sleep in front of a lock that they could come into only where a write was downgraded. -/
def Barred (c : Contended QuotaLock Mode κ) : Prop :=
  0 < c.sleeping .read → c.lock.admits .read = true →
    c.lock.mode = some .read ∧ c.lock.returnTo = some .write

section Resume

variable {ws others : List (Sleeper κ Mode)} {run : Aftermath QuotaLock Mode Fault κ}

theorem Resumes.lock_of_refused (hr : Resumes h l ws others run) (hmode : ∀ s ∈ ws, s.mode = m)
    (ha : l.admits m = false) : run.lock = l := by
  induction hr with
  | nil => rfl
  | asleep _ _ ih => exact ih (fun t hmem ↦ hmode t (List.mem_cons_of_mem _ hmem)) ha
  | acquired hadmits | full _ hadmits =>
    rw [hmode _ List.mem_cons_self, ha] at hadmits
    cases hadmits

/-- Of callers of one mode, somebody sleeps again only when nobody else of that mode can come in. -/
theorem Resumes.admits_of_asleep (hr : Resumes h l ws others run) (hmode : ∀ s ∈ ws, s.mode = m)
    (hfit : l.granted.toNat + run.returned.length < 2 ^ 32) (hasleep : run.asleep ≠ []) :
    run.lock.admits m = false := by
  induction hr with
  | nil => exact absurd rfl hasleep
  | asleep ha hrest =>
    rw [hmode _ List.mem_cons_self] at ha
    rwa [hrest.lock_of_refused (fun t hmem ↦ hmode t (List.mem_cons_of_mem _ hmem)) ha]
  | acquired _ hin _ ih =>
    have hcount := hin.granted
    rw [List.length_cons] at hfit
    exact ih (fun t hmem ↦ hmode t (List.mem_cons_of_mem _ hmem)) (by omega) hasleep
  | full _ _ hroom =>
    rw [List.length_cons] at hfit
    omega

theorem admits_settle_of_asleep {α : Type} {step : Step QuotaLock Fault α}
    {sleepers : List (Sleeper κ Mode)} (ht : Tallied h ⟨step.lock, sleepers⟩)
    (hs : step.signals = [.all m])
    (hfit : step.lock.granted.toNat + (Contended.settle step sleepers).returned.length < 2 ^ 32)
    (hpos : 0 < (Contended.settle step sleepers).asleep.countP (·.mode == m)) :
    (Contended.settle step sleepers).lock.admits m = false := by
  have hothers : (sleepers.filter (·.mode != m)).countP (·.mode == m) = 0 := by
    rw [List.countP_eq_zero]
    intro s hmem hsame
    exact bne_iff_ne.1 (List.mem_filter.1 hmem).2 (beq_iff_eq.1 hsame)
  have hp : (sleepers.filter (·.mode == m) ++ sleepers.filter (·.mode != m)).Perm sleepers :=
    List.filter_append_perm _ _
  rw [Contended.settle_of_all hs] at hfit hpos ⊢
  dsimp only at hfit hpos ⊢
  rw [List.countP_append, hothers] at hpos
  refine (resumes_resumeAll _ _ (ht.perm hp)).admits_of_asleep ?_ hfit ?_
  · intro s hmem
    exact beq_iff_eq.1 (List.mem_filter.1 hmem).2
  · intro hnil
    rw [hnil] at hpos
    exact absurd hpos (Nat.lt_irrefl 0)

end Resume

section Barring

variable {c c' : Contended QuotaLock Mode κ}

theorem Barred.of_hold_eq (hb : Barred c) (hmode : c'.lock.mode = c.lock.mode)
    (hreturn : c'.lock.returnTo = c.lock.returnTo)
    (hbefore : 0 < c'.sleeping .read → c'.lock.admits .read = true →
      0 < c.sleeping .read ∧ c.lock.admits .read = true) : Barred c' := by
  intro hasleep hadmits
  obtain ⟨hasleep', hadmits'⟩ := hbefore hasleep hadmits
  rw [hmode, hreturn]
  exact hb hasleep' hadmits'

theorem Barred.perm (hb : Barred c) {sleepers : List (Sleeper κ Mode)}
    (hp : sleepers.Perm c.sleepers) : Barred { c with sleepers } := by
  refine hb.of_hold_eq rfl rfl fun hasleep hadmits ↦ ⟨?_, hadmits⟩
  rwa [Contended.sleeping, hp.countP_eq] at hasleep

theorem Barred.of_refused (hadmits : c.lock.admits .read = false) : Barred c := by
  intro _ ha
  rw [hadmits] at ha
  cases ha

namespace Steady

theorem admits_read_iff (hs : Steady h c) (hasleep : 0 < c.sleeping .read) :
    c.lock.admits .read = true ↔ c.lock.mode = some .read ∧ c.lock.readQuotaLeft = true := by
  have hactive := hs.tallied.active_ne_zero (hs.held (Contended.sleepers_ne_nil hasleep))
  simp [admits, hactive]

theorem refuses_read_iff (hs : Steady h c) (hasleep : 0 < c.sleeping .read) :
    c.lock.admits .read = false ↔ c.lock.mode = some .write ∨
      c.lock.mode = some .read ∧ 0 < c.sleeping .write ∧ c.lock.readQuota ≤ c.lock.granted := by
  obtain ⟨m, hmode⟩ := hs.tallied.exists_mode (hs.held (Contended.sleepers_ne_nil hasleep))
  have hwriters : c.lock.writersWaiting = 0 ↔ c.sleeping .write = 0 :=
    hs.tallied.waiting_eq_zero_iff (m := .write)
  rw [← Bool.not_eq_true, hs.admits_read_iff hasleep]
  cases m with
  | write => simp [hmode]
  | read => simp [hmode, readQuotaLeft, hwriters, Nat.pos_iff_ne_zero]

theorem barred_seat (hs : Steady h c) (hw : c.lock.welcomes m = true) (spins : Int32) :
    Barred { c with lock := { c.lock.seat m with spins } } := by
  intro hasleep _
  obtain ⟨hnone, hadmits⟩ := Bool.and_eq_true_iff.1 hw
  change 0 < c.sleeping .read at hasleep
  obtain ⟨rfl, -⟩ :=
    hs.tallied.mode_of_admits hadmits (hs.held (Contended.sleepers_ne_nil hasleep))
  rw [beq_iff_eq, hs.tallied.waiting_eq_zero_iff] at hnone
  omega

/-- A reader goes to sleep behind others, or because it is not admitted. A writer that goes to sleep
leaves the readers no better off. -/
theorem barred_join (hs : Steady h c) (hb : Barred c) (hw : c.lock.welcomes m = false)
    (hroom : (c.lock.waiting m).toNat + 1 < 2 ^ 32) (s : Sleeper κ Mode) (hmode : s.mode = m) :
    Barred ⟨c.lock.withWaiting m (c.lock.waiting m + 1), c.sleepers ++ [s]⟩ := by
  refine hb.of_hold_eq (mode_withWaiting ..) (returnTo_withWaiting ..) fun hasleep hadmits ↦ ?_
  cases m with
  | read =>
    rw [admits_withWaiting] at hadmits
    refine ⟨?_, hadmits⟩
    rw [welcomes, hadmits, Bool.and_true, beq_eq_false_iff_ne, Ne,
      hs.tallied.waiting_eq_zero_iff] at hw
    exact Nat.pos_of_ne_zero hw
  | write =>
    have hasleep' : 0 < c.sleeping .read := by
      simpa [Contended.sleeping, hmode] using hasleep
    refine ⟨hasleep', (hs.admits_read_iff hasleep').2 ?_⟩
    have hactive := hs.tallied.active_ne_zero (hs.held (Contended.sleepers_ne_nil hasleep'))
    have hcounted := Checked.toNat_of_increment (Checked.increment_of_lt hroom)
    have hsome : c.lock.writersWaiting + 1 ≠ 0 := by
      intro hzero
      have hz := congrArg UInt32.toNat hzero
      change (c.lock.writersWaiting + 1).toNat = _ at hcounted
      rw [hcounted] at hz
      cases hz
    simp only [admits, withWaiting, waiting, readQuotaLeft, Bool.or_eq_true, beq_iff_eq, hactive,
      hsome, false_or, Bool.and_eq_true] at hadmits
    simp only [readQuotaLeft, Bool.or_eq_true]
    exact ⟨hadmits.1, .inr hadmits.2⟩

theorem barred_newcomer (hs : Steady h c) (hb : Barred c) {d : Demand κ} (hd : d.seeks = some m)
    (hroom : ∀ caller m, d = .call caller m → c.sleepers.length + 1 < 2 ^ 32)
    (hserved : Served h c d (c.serve d)) : Barred (c.serve (F := Fault) d).after := by
  have harrival := hs.arrives hd hroom
  generalize c.serve (F := Fault) d = out at harrival hserved ⊢
  cases harrival with
  | refused hw => exact hb
  | @asleep caller notes hw _ hcounted =>
    exact hs.barred_join hb hw hcounted ⟨caller, m, c.lock.spins⟩ rfl
  | @seated spins hw _ _ => exact hs.barred_seat hw spins
  | full => exact absurd rfl (hserved.reply_ne_fault _)

/-- The last holder leaves nobody asleep, or a writer comes in, or as many readers as may. -/
theorem barred_handOff (hs : Steady h c) {b : Mode} :
    let vacant := { c.lock with active := 0, mode := some b, returnTo := none }
    let run := Contended.settle (F := Fault) vacant.handOff c.sleepers
    Barred (⟨run.lock, run.asleep⟩ : Contended QuotaLock Mode κ) := by
  intro vacant run
  obtain ⟨mode, granted, signals, hsignals, hlock, ht, hhands, ho, hfit, hsome⟩ :=
    hs.handedOff (rfl : vacant = _) (rfl : run = _)
  intro hasleep
  cases hhands with
  | toNobody hreaders =>
    have hnone : c.sleeping .read = 0 := hs.tallied.waiting_eq_zero_iff.1 hreaders
    have hsilent : run = _ := Contended.settle_of_silent hsignals c.sleepers
    rw [hsilent] at hasleep
    exact absurd hnone (Nat.ne_of_gt hasleep)
  | toWriter =>
    have hkept : c.sleepers ≠ [] := by
      intro hnil
      have hlen := Returned.length_of_conserved ho.conserved
      have hle := Contended.sleeping_le ⟨run.lock, run.asleep⟩ .read
      rw [hnil] at hlen
      dsimp only [List.length_nil] at hlen hle
      omega
    have hk := hsome hkept
    obtain ⟨hin, -⟩ := letsIn_settle (.inl rfl) ht hsignals hfit
    have hmode : run.lock.mode = some .write := hin.mode.trans (if_neg (Nat.ne_of_gt hk))
    have hactive : run.lock.active ≠ 0 := by
      intro hzero
      have hcount := hin.active
      rw [hzero] at hcount
      change 0 = _ + run.returned.length at hcount
      omega
    exact Barred.of_refused (by simp [admits, hactive, hmode]) hasleep
  | toReaders =>
    exact Barred.of_refused (admits_settle_of_asleep ht hsignals hfit hasleep) hasleep

theorem barred_unlock (hs : Steady h c) (hb : Barred c) (hpos : 0 < h.of m) :
    Barred (c.request (F := Fault) (.unlock m)).after := by
  have ht := hs.tallied
  obtain ⟨hmode, htotal⟩ := ht.of_pos_iff.1 hpos
  by_cases hone : c.lock.active = 1
  · obtain ⟨b, -, hstep⟩ := unlock_of_last hmode hone
    have hbarred := hs.barred_handOff (b := b)
    dsimp only at hbarred
    rw [← hstep] at hbarred
    exact hbarred
  · have hactive := ht.active_ne_zero htotal
    have hleft := active_sub_one_ne_zero hone
    rw [Contended.request_of_done (r := .unlock m) (unlock_of_shared hmode hactive hone)]
    refine hb.of_hold_eq rfl rfl fun hasleep hadmits ↦ ⟨hasleep, (hs.admits_read_iff hasleep).2 ?_⟩
    simpa [admits, readQuotaLeft, hleft] using hadmits

theorem barred_upgrade (hs : Steady h c) (hb : Barred c) (hpos : 0 < h.reads) :
    Barred (c.request (F := Fault) .upgrade).after := by
  have ht := hs.tallied
  obtain ⟨hmode, htotal⟩ := ht.of_pos_iff.1 (show 0 < h.of .read from hpos)
  have hactive := ht.active_ne_zero htotal
  by_cases hone : c.lock.active = 1
  · rw [Contended.request_of_done (r := .upgrade) (upgrade_of_alone hmode hone)]
    exact .of_refused (by simp [admits, hactive])
  · rw [Contended.request_of_done (r := .upgrade) (upgrade_of_shared hmode hactive hone)]
    exact hb

/-- A downgrade wakes the readers where it takes an upgrade back and the quota has room for them. -/
theorem barred_downgrade (hs : Steady h c) (hpos : 0 < h.writes)
    (hfit : c.lock.granted.toNat +
      (c.request (F := Fault) .downgrade).grants (.request .downgrade) < 2 ^ 32) :
    Barred (c.request (F := Fault) .downgrade).after := by
  have ht := hs.tallied
  obtain ⟨hmode, halone, -⟩ := ht.write_held hpos
  have hactive : c.lock.active ≠ 0 := by rw [halone]; decide
  have hstep := downgrade_eq hmode halone
  obtain ⟨-, -, hgranted, hconvert⟩ := hs.downgraded hpos
  let run := Contended.settle c.lock.downgrade c.sleepers
  change Barred ⟨run.lock, run.asleep⟩
  split at hstep
  · have hfit' : c.lock.downgrade.lock.granted.toNat + run.returned.length < 2 ^ 32 := by
      rw [hgranted]
      exact Nat.lt_of_le_of_lt (Nat.add_le_add_left (Nat.le_add_left _ _) _) hfit
    intro hasleep
    exact Barred.of_refused
      (admits_settle_of_asleep hconvert (by rw [hstep]) hfit' hasleep) hasleep
  · next hkept =>
    have hsilent : run = _ := Contended.settle_of_silent (by rw [hstep]) c.sleepers
    rw [hsilent, hstep]
    intro hasleep hadmits
    change 0 < c.sleeping .read at hasleep
    have hwaiting : c.lock.readersWaiting > 0 := by
      rw [gt_iff_lt, UInt32.lt_iff_toNat_lt,
        show c.lock.readersWaiting.toNat = _ from ht.waiting .read]
      exact hasleep
    have hquota : c.lock.readQuotaLeft = true := by
      simpa [admits, readQuotaLeft, hactive] using hadmits
    refine ⟨rfl, ?_⟩
    cases hr : c.lock.returnTo with
    | none => simp [convertedFrom]
    | some b =>
      rw [hr, hquota, decide_eq_true hwaiting] at hkept
      exact absurd rfl hkept

end Steady

theorem Served.barred (hs : Steady h c) (hb : Barred c) {d : Demand κ}
    (hserved : Served h c d (c.serve d))
    (hroom : ∀ caller m, d = .call caller m → c.sleepers.length + 1 < 2 ^ 32)
    (hfit : c.lock.granted.toNat + (c.serve (F := Fault) d).grants d < 2 ^ 32) :
    Barred (c.serve (F := Fault) d).after := by
  cases d with
  | call caller m => exact hs.barred_newcomer hb rfl hroom hserved
  | request r =>
    have hp := hserved.permits hs
    cases r with
    | tryLock m => exact hs.barred_newcomer hb rfl hroom hserved
    | unlock m => exact hs.barred_unlock hb hp
    | upgrade => exact hs.barred_upgrade hb hp
    | downgrade => exact hs.barred_downgrade hp hfit

end Barring

section Readmission

variable {c : Contended QuotaLock Mode κ}

/-- How many of the sleeping readers a downgrade lets in. Where it takes an upgrade back, these are
as many as the read quota allows, and none otherwise. -/
def readmits (c : Contended QuotaLock Mode κ) : Nat :=
  if c.lock.returnTo = none then 0
  else if c.sleeping .write = 0 then c.sleeping .read
  else min (c.sleeping .read) (c.lock.readQuota.toNat - c.lock.granted.toNat)

theorem LetsIn.count_eq {k : Nat} {l' : QuotaLock} (hin : LetsIn .read k l l')
    (hinside : 0 < k ∨ l.active ≠ 0 ∧ l.mode = some .read)
    (hroom : l.active = 0 → l.granted < l.readQuota) (asleep : Nat)
    (hleft : 0 < asleep → l'.admits .read = false) :
    k = if l.writersWaiting = 0 then asleep + k
      else min (asleep + k) (l.readQuota.toNat - l.granted.toNat) := by
  have hmode' : l'.mode = some .read := by
    rw [hin.mode]
    split
    · next hnone => exact (hinside.resolve_left (Nat.not_lt.2 (Nat.le_of_eq hnone))).2
    · rfl
  have hactive' : l'.active ≠ 0 := by
    intro hzero
    have hcount := hin.active
    rw [hzero] at hcount
    change 0 = l.active.toNat + k at hcount
    rcases hinside with hpos | ⟨hactive, -⟩
    · omega
    · exact hactive (UInt32.toNat_inj.1 (Nat.eq_zero_of_add_eq_zero_right hcount.symm))
  have hgranted := hin.granted
  have hwriters : l'.writersWaiting = l.writersWaiting := hin.others .write (by decide)
  have hspent : 0 < asleep →
      l.writersWaiting ≠ 0 ∧ l.readQuota.toNat ≤ l'.granted.toNat := by
    intro hpos
    have hrefused := hleft hpos
    simpa [admits, readQuotaLeft, hactive', hmode', hwriters, hin.readQuota,
      UInt32.le_iff_toNat_le] using hrefused
  split
  · next hnone =>
    have : ¬ 0 < asleep := fun hpos ↦ (hspent hpos).1 hnone
    omega
  · next hsome =>
    have hwithin : 0 < k → l'.granted.toNat ≤ l.readQuota.toNat := by
      intro hpos
      exact UInt32.le_iff_toNat_le.1 (hin.within rfl hpos hsome hroom)
    rcases Nat.eq_zero_or_pos asleep with rfl | hpos
    · omega
    · have := (hspent hpos).2
      omega

theorem Steady.readmits_eq_zero_iff (hs : Steady h c) :
    readmits c = 0 ↔
      (c.lock.returnTo.isSome && c.lock.readQuotaLeft && decide (c.lock.readersWaiting > 0)) =
        false := by
  have hread : c.lock.readersWaiting.toNat = c.sleeping .read := hs.tallied.waiting .read
  have hwrite : c.lock.writersWaiting.toNat = c.sleeping .write := hs.tallied.waiting .write
  rw [readmits, ← Bool.not_eq_true]
  cases hr : c.lock.returnTo with
  | none => simp
  | some b =>
    simp only [Option.isSome_some, Bool.true_and, readQuotaLeft, Bool.and_eq_true,
      Bool.or_eq_true, beq_iff_eq, decide_eq_true_eq, ← UInt32.toNat_inj, gt_iff_lt,
      UInt32.lt_iff_toNat_lt, hread, hwrite, UInt32.toNat_zero, reduceCtorEq, ↓reduceIte]
    split <;> omega

theorem Steady.readmitted (hs : Steady h c) (hpos : 0 < h.writes)
    (hfit : c.lock.granted.toNat +
      (c.request (F := Fault) .downgrade).grants (.request .downgrade) < 2 ^ 32) :
    Returned.modes (c.request (F := Fault) .downgrade).returned =
      List.replicate (readmits c) .read := by
  have ht := hs.tallied
  obtain ⟨hmode, halone, -⟩ := ht.write_held hpos
  have hactive : c.lock.active ≠ 0 := by rw [halone]; decide
  have hstep := downgrade_eq hmode halone
  obtain ⟨-, -, hgranted, hconvert⟩ := hs.downgraded hpos
  let run := Contended.settle c.lock.downgrade c.sleepers
  change Returned.modes run.returned = _
  split at hstep
  · next hwakes =>
    have hfit' : c.lock.downgrade.lock.granted.toNat + run.returned.length < 2 ^ 32 := by
      rw [hgranted]
      exact Nat.lt_of_le_of_lt (Nat.add_le_add_left (Nat.le_add_left _ _) _) hfit
    have hsignals : c.lock.downgrade.signals = [.all .read] := by rw [hstep]
    have ho := handover_settle c.lock.downgrade hconvert hfit'
    obtain ⟨hin, hmodes⟩ : LetsIn .read run.returned.length c.lock.downgrade.lock run.lock ∧
        Returned.modes run.returned = List.replicate run.returned.length .read :=
      letsIn_settle (.inr rfl) hconvert hsignals hfit'
    have hasleep := ho.sleeping_eq .read
    change run.asleep.countP (·.mode == .read) + (Returned.modes run.returned).count .read =
      c.sleeping .read at hasleep
    rw [hmodes, List.count_replicate_self] at hasleep
    rw [hmodes]
    refine congrArg (List.replicate · _) ?_
    have hheld := hconvert.active_ne_zero Nat.one_pos
    have hcount := hin.count_eq (.inr ⟨hheld, by rw [hstep]⟩) (fun hfree ↦ absurd hfree hheld)
      (run.asleep.countP (·.mode == .read))
      (admits_settle_of_asleep hconvert hsignals hfit')
    rw [hasleep, hstep] at hcount
    have hupgraded : c.lock.returnTo ≠ none := by
      intro hnone
      rw [hnone] at hwakes
      cases hwakes
    have hwriters : c.lock.writersWaiting = 0 ↔ c.sleeping .write = 0 :=
      ht.waiting_eq_zero_iff (m := .write)
    simp only [readmits, hupgraded, ↓reduceIte, ← hwriters]
    exact hcount
  · next hkept =>
    have hsilent : run = _ := Contended.settle_of_silent (by rw [hstep]) c.sleepers
    rw [hs.readmits_eq_zero_iff.2 (Bool.eq_false_iff.2 hkept), hsilent]
    rfl

end Readmission

section Runs

variable {s t : Situation QuotaLock Mode} {move : Situation.Move QuotaLock Mode Fault}
  {moves : List (Situation.Move QuotaLock Mode Fault)}

theorem Steady.barred_step (hs : Steady s.holds s.calls) (hb : Barred s.calls)
    (hstep : Situation.Step s move t) (hroom : Uncrowded s move t)
    (hfit : s.calls.lock.granted.toNat + move.grants < 2 ^ 32) : Barred t.calls := by
  obtain ⟨sleepers, hp, hcases⟩ := hs.step_cases hstep hroom hfit
  rcases hcases with ⟨hcalls, -⟩ | ⟨d, out, -, rfl, hroom', hserved, hgrants, hcalls, -⟩
  · rw [hcalls]
    exact hb.perm hp
  · rw [hcalls]
    have hfit' := Nat.lt_of_le_of_lt (Nat.add_le_add_left hgrants _) hfit
    exact hserved.barred (hs.perm hp) (hb.perm hp) hroom' hfit'

theorem Steady.barred_run (hrun : Situation.Run Uncrowded s moves t)
    (hs : Steady s.holds s.calls) (hb : Barred s.calls)
    (hfit : s.calls.lock.granted.toNat + Situation.grants moves < 2 ^ 32) : Barred t.calls := by
  induction hrun with
  | nil => exact hb
  | @cons s t u move moves hstep hroom _ ih =>
    have hsum : Situation.grants (move :: moves) = move.grants + Situation.grants moves := rfl
    have hkept := hs.step hstep hroom (by omega)
    have hcounted := hkept.counted
    exact ih hkept.steady (hs.barred_step hb hstep hroom (by omega)) (by omega)

theorem Steady.readmitted_step (hs : Steady s.holds s.calls) (hstep : Situation.Step s move t)
    (hd : s.guarded.demand? move.op = some (.request .downgrade)) (hpos : 0 < s.holds.writes)
    (hfit : s.calls.lock.granted.toNat + move.grants < 2 ^ 32) :
    move.report.answer.met = true ∧
      Returned.modes move.report.returned = List.replicate (readmits s.calls) .read := by
  obtain ⟨sleepers, hp, out, hout, hgrants, hserved, -⟩ := hstep.demands hd
  have hs' := hs.perm hp
  have hfit' := Nat.lt_of_le_of_lt (Nat.add_le_add_left hgrants _) hfit
  rw [hout] at hfit'
  obtain ⟨-, hresult, -⟩ := hs'.downgraded hpos
  have hreply : out.reply = .done := by
    rw [hout]
    exact congrArg Reply.ofAttempt hresult
  have hsleeping (m : Mode) : Contended.sleeping { s.calls with sleepers } m = s.calls.sleeping m :=
    hp.countP_eq _
  have hsame : readmits { s.calls with sleepers } = readmits s.calls := by
    rw [readmits, hsleeping, hsleeping]
    rfl
  obtain ⟨-, -, hreturned, hmet, -⟩ := hserved (by rw [hreply]; rfl)
  rw [hmet, hreply, hreturned, hout, ← hsame]
  exact ⟨rfl, hs'.readmitted hpos hfit'⟩

/-- Readers sleep in front of a lock that admits readers only where its writer has downgraded.
Elsewhere a reader sleeps behind a writer, or because a writer waits and the read quota is spent. A
downgrade lets readers in only where it takes an upgrade back. -/
theorem readers_barred_by_downgrade (q : Quotas)
    (hrun : Situation.Run Uncrowded (Situation.fresh (QuotaLock.ofQuotas q)) moves s)
    (hfew : Situation.grants moves < 2 ^ 32) :
    let c := s.calls
    (0 < c.sleeping .read →
      0 < c.lock.active ∧
        (c.lock.admits .read = false ↔ c.lock.mode = some .write ∨
          c.lock.mode = some .read ∧ 0 < c.sleeping .write ∧ c.lock.readQuota ≤ c.lock.granted) ∧
        (c.lock.admits .read = true →
          c.lock.mode = some .read ∧ c.lock.returnTo = some .write)) ∧
      ∀ move t, Situation.Step (F := Fault) s move t →
        s.guarded.demand? move.op = some (.request .downgrade) → 0 < s.holds.writes →
        Situation.grants moves + move.grants < 2 ^ 32 →
          move.report.answer.met = true ∧
            Returned.modes move.report.returned =
              List.replicate
                (if c.lock.returnTo = none then 0
                else if c.sleeping .write = 0 then c.sleeping .read
                else min (c.sleeping .read) (c.lock.readQuota.toNat - c.lock.granted.toNat))
                .read := by
  have hfit : 0 + Situation.grants moves < 2 ^ 32 := by rwa [Nat.zero_add]
  obtain ⟨hs, hcounted, -⟩ := (steady_fresh q).run hrun hfit
  have hnobody : Barred (Situation.fresh (W := Mode) (QuotaLock.ofQuotas q)).calls :=
    fun hasleep ↦ absurd hasleep (Nat.lt_irrefl 0)
  have hb := (steady_fresh q).barred_run hrun hnobody hfit
  intro c
  refine ⟨fun hasleep ↦ ?_, fun move t hstep hd hpos hroom ↦ ?_⟩
  · have hheld := hs.held (Contended.sleepers_ne_nil hasleep)
    exact ⟨hs.tallied.active_pos_iff.2 hheld, hs.refuses_read_iff hasleep, hb hasleep⟩
  · change s.calls.lock.granted.toNat ≤ 0 + Situation.grants moves at hcounted
    exact hs.readmitted_step hstep hd hpos (by omega)

/-- A reader sleeps on behind a writer that has downgraded, though nothing bars readers. -/
theorem reader_asleep_readable :
    ∃ moves s, Situation.Run Uncrowded (Situation.fresh (QuotaLock.ofQuotas {})) moves s ∧
      Situation.grants moves = 1 ∧ moves.length = 3 ∧ 0 < s.calls.sleeping .read ∧
      s.calls.sleeping .write = 0 ∧ s.calls.lock.mode = some .read ∧
      s.calls.lock.admits .read = true :=
  ⟨_, _,
    .cons (.intro (.request (.tryLock .write)) (.refl _) rfl) (by decide) <|
    .cons (.intro (.lock .read "first") (.refl _) rfl) (by decide) <|
    .cons (.intro (.request .downgrade) (.refl _) rfl) (by decide) <|
    .nil _, rfl, rfl, by decide, rfl, rfl, rfl⟩

theorem readers_barred_by_downgrade_of_two :
    ∃ moves s, Situation.Run Uncrowded (Situation.fresh (QuotaLock.ofQuotas { read := 2 })) moves s ∧
      Situation.grants moves = 1 ∧ 0 < s.calls.sleeping .read ∧
      s.calls.lock.admits .read = false ∧
      ∃ (move : Situation.Move QuotaLock Mode Fault) (t : _), Situation.Step s move t ∧
        Returned.modes move.report.returned = [.read] := by
  obtain ⟨moves, s, hrun, hgrants, hreaders, hadmits, hholds, hwriters, hreturn, hcounts, move, t,
      hstep, hd, hmove⟩ :
      ∃ moves s, Situation.Run Uncrowded (Situation.fresh (QuotaLock.ofQuotas { read := 2 })) moves s ∧
        Situation.grants moves = 1 ∧ s.calls.sleeping .read = 3 ∧
        s.calls.lock.admits .read = false ∧ s.holds = ⟨0, 1⟩ ∧ s.calls.sleeping .write = 1 ∧
        s.calls.lock.returnTo = some .read ∧
        (s.calls.lock.readQuota = 2 ∧ s.calls.lock.granted = 1) ∧
        ∃ (move : Situation.Move QuotaLock Mode Fault) (t : _), Situation.Step s move t ∧
          s.guarded.demand? move.op = some (.request .downgrade) ∧ move.grants = 1 :=
    ⟨_, _,
      .cons (.intro (.request (.tryLock .read)) (.refl _) rfl) (by decide) <|
      .cons (.intro (.request .upgrade) (.refl _) rfl) (by decide) <|
      .cons (.intro (.lock .read "first") (.refl _) rfl) (by decide) <|
      .cons (.intro (.lock .write "second") (.refl _) rfl) (by decide) <|
      .cons (.intro (.lock .read "third") (.refl _) rfl) (by decide) <|
      .cons (.intro (.lock .read "fourth") (.refl _) rfl) (by decide) <|
      .nil _, rfl, rfl, rfl, rfl, rfl, rfl, ⟨rfl, rfl⟩,
      _, _, .intro (.request .downgrade) (.refl _) rfl, rfl, rfl⟩
  obtain ⟨-, hdowngrade⟩ := readers_barred_by_downgrade { read := 2 } hrun (by rw [hgrants]; decide)
  obtain ⟨-, hmodes⟩ := hdowngrade move t hstep hd (by rw [hholds]; decide)
    (by rw [hgrants, hmove]; decide)
  rw [hreturn, hwriters, hreaders, hcounts.1, hcounts.2] at hmodes
  exact ⟨moves, s, hrun, hgrants, hreaders ▸ (by decide), hadmits, move, t, hstep, hmodes⟩

end Runs

end SyncKit.QuotaLock
