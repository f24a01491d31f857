import SyncKit.Proofs.Quota.Steady

namespace SyncKit.QuotaLock

/-- Fewer than 2^32 calls are outstanding while a move is made. Moves may be misuse. -/
def Uncrowded (s : Situation QuotaLock Mode) (move : Situation.Move QuotaLock Mode Fault)
    (_ : Situation QuotaLock Mode) : Prop := s.outstanding move.op < 2 ^ 32

instance (s : Situation QuotaLock Mode) (move : Situation.Move QuotaLock Mode Fault)
    (t : Situation QuotaLock Mode) : Decidable (Uncrowded s move t) :=
  inferInstanceAs (Decidable (_ < _))

/-- Every call that came back has the lock, and whoever made the move faulted only for giving back
or converting a hold that was not there. -/
structure Blameless (move : Situation.Move QuotaLock Mode Fault) : Prop where
  returned : move.report.returned.all (·.granted) = true
  answer : ∀ f, move.report.answer = .reply (.fault f) →
    ∃ misuse holding, f = .notHeld misuse holding

variable {s t : Situation QuotaLock Mode} {move : Situation.Move QuotaLock Mode Fault}
  {moves : List (Situation.Move QuotaLock Mode Fault)}

theorem steady_fresh (q : Quotas) :
    Steady {} (Situation.fresh (W := Mode) (QuotaLock.ofQuotas q)).calls where
  tallied :=
    { active := rfl
      mode := fun m hpos ↦ by cases m <;> exact absurd hpos (Nat.lt_irrefl 0)
      alone := Nat.zero_le 1
      waiting := fun m ↦ by cases m <;> rfl
      granted := Nat.le_refl 0
      returnTo := nofun
      spins := ⟨Int.le_refl 0, show (0 : Int) ≤ 94 by decide⟩
      estimates := nofun }
  idle := fun _ ↦ ⟨rfl, rfl⟩
  few := show 0 < 2 ^ 32 by decide

structure Kept (s : Situation QuotaLock Mode) (move : Situation.Move QuotaLock Mode Fault)
    (t : Situation QuotaLock Mode) : Prop where
  steady : Steady t.holds t.calls
  counted : t.calls.lock.granted.toNat ≤ s.calls.lock.granted.toNat + move.grants
  blameless : Blameless move

theorem Misused.dropped {h : Holds} {c : Contended QuotaLock Mode Caller} (ht : Tallied h c)
    {r : Request} (hn : ¬ h.Permits r) {m : Mode}
    (hm : Guarded.convertsFrom (.request r) = some m) : Misused c (c.request (.unlock m)) := by
  cases r with
  | tryLock _ => cases hm
  | unlock _ => cases hm
  | upgrade => cases hm; exact misused_unlock ht hn
  | downgrade => cases hm; exact misused_unlock ht hn

theorem Steady.step_cases (hs : Steady s.holds s.calls) (hstep : Situation.Step s move t)
    (hroom : Uncrowded s move t) (hfit : s.calls.lock.granted.toNat + move.grants < 2 ^ 32) :
    ∃ sleepers, sleepers.Perm s.calls.sleepers ∧
      (t.calls = { s.calls with sleepers } ∧ t.holds = s.holds ∧ move.report.returned = [] ∧
          move.report.answer.met = false ∧ Blameless move ∨
        ∃ d out, s.guarded.demand? move.op = some d ∧
          out = Contended.serve { s.calls with sleepers } d ∧
          (∀ caller m, d = .call caller m → sleepers.length + 1 < 2 ^ 32) ∧
          Served s.holds { s.calls with sleepers } d out ∧ out.grants d ≤ move.grants ∧
          t.calls = out.after ∧ t.holds = out.settle d s.holds ∧
          move.report.returned = out.returned ∧ move.report.answer.met = out.reply.met ∧
          move.report.answer.faulted = false) := by
  cases hd : s.guarded.demand? move.op with
  | none =>
    obtain ⟨sleepers, hp, hcalls, hholds, hreturned, denial, hanswer⟩ := hstep.denied hd
    refine ⟨sleepers, hp, .inl ⟨hcalls, hholds, hreturned, ?_, ?_, fun f hfault ↦ ?_⟩⟩
    · rw [hanswer]
      rfl
    · rw [hreturned]
      rfl
    · rw [hanswer] at hfault
      cases hfault
  | some d =>
    obtain ⟨sleepers, hp, out, hout, hgrants, hserved, hfails⟩ := hstep.demands hd
    refine ⟨sleepers, hp, ?_⟩
    have hs' := hs.perm hp
    have hroom' : ∀ caller m, d = .call caller m → sleepers.length + 1 < 2 ^ 32 := by
      rintro caller m rfl
      rw [Uncrowded, Situation.outstanding, hd] at hroom
      rwa [hp.length_eq]
    have hfit' : s.calls.lock.granted.toNat + out.grants d < 2 ^ 32 :=
      Nat.lt_of_le_of_lt (Nat.add_le_add_left hgrants _) hfit
    rw [hout] at hfit'
    rcases hs'.serve d hroom' hfit' with hserve | ⟨⟨r, hr, hn⟩, hmisused⟩
    · right
      rw [← hout] at hserve
      obtain ⟨hcalls, hholds, hreturned, hmet, hanswer⟩ :=
        hserved (Outcome.unfaulted hserve.faultless)
      exact ⟨d, out, rfl, hout, hroom', hserve, hgrants, hcalls, hholds, hreturned, hmet, hanswer⟩
    · left
      rw [← hout] at hmisused
      obtain ⟨misuse, hreply⟩ := hmisused.reply
      obtain ⟨hanswer, hholds, hcalls⟩ := hfails _ hreply
      have hkept : t.calls = { s.calls with sleepers } ∧ move.report.returned = [] := by
        obtain ⟨hcalls, hreturned⟩ | ⟨m, hm, hcalls, hreturned⟩ := hcalls
        · exact ⟨hcalls.trans hmisused.after, hreturned.trans hmisused.returned⟩
        · rw [hr] at hm
          have hdropped := Misused.dropped hs'.tallied hn hm
          rw [hmisused.after] at hcalls hreturned
          rw [hmisused.returned, hdropped.returned] at hreturned
          exact ⟨hcalls.trans hdropped.after, hreturned⟩
      obtain ⟨hcalls, hreturned⟩ := hkept
      rw [hreturned] at hholds
      refine ⟨hcalls, hholds, hreturned, ?_, ?_, fun f hfault ↦ ?_⟩
      · rw [hanswer]
        rfl
      · rw [hreturned]
        rfl
      · rw [hanswer] at hfault
        cases hfault
        exact ⟨misuse, _, rfl⟩

theorem Steady.step (hs : Steady s.holds s.calls) (hstep : Situation.Step s move t)
    (hroom : Uncrowded s move t) (hfit : s.calls.lock.granted.toNat + move.grants < 2 ^ 32) :
    Kept s move t := by
  obtain ⟨sleepers, hp, hcases⟩ := hs.step_cases hstep hroom hfit
  rcases hcases with ⟨hcalls, hholds, -, -, hblameless⟩ |
    ⟨d, out, -, -, -, hserved, hgrants, hcalls, hholds, hreturned, -, hanswer⟩
  · refine ⟨?_, ?_, hblameless⟩
    · rw [hcalls, hholds]
      exact hs.perm hp
    · rw [hcalls]
      exact Nat.le_add_right _ _
  · refine ⟨?_, ?_, ?_, fun f hfault ↦ ?_⟩
    · rw [hcalls, hholds]
      exact hserved.steady
    · rw [hcalls]
      exact Nat.le_trans hserved.counted (Nat.add_le_add_left hgrants _)
    · rw [hreturned]
      exact (Bool.and_eq_true_iff.1 hserved.faultless).2
    · rw [hfault] at hanswer
      cases hanswer

theorem Steady.run (hrun : Situation.Run Uncrowded s moves t) (hs : Steady s.holds s.calls)
    (hfit : s.calls.lock.granted.toNat + Situation.grants moves < 2 ^ 32) :
    Steady t.holds t.calls ∧
      t.calls.lock.granted.toNat ≤ s.calls.lock.granted.toNat + Situation.grants moves ∧
      ∀ move ∈ moves, Blameless move := by
  induction hrun with
  | nil => exact ⟨hs, Nat.le_refl _, fun _ hmem ↦ absurd hmem List.not_mem_nil⟩
  | @cons s t u move moves hstep hroom _ ih =>
    have hsum : Situation.grants (move :: moves) = move.grants + Situation.grants moves := rfl
    have hkept := hs.step hstep hroom (by omega)
    have hcounted := hkept.counted
    obtain ⟨hsteady, hcount, hlater⟩ := ih hkept.steady (by omega)
    exact ⟨hsteady, by omega, List.forall_mem_cons.2 ⟨hkept.blameless, hlater⟩⟩

theorem steady_run (q : Quotas)
    (hrun : Situation.Run Uncrowded (Situation.fresh (QuotaLock.ofQuotas q)) moves s)
    (hfew : Situation.grants moves < 2 ^ 32) :
    Steady s.holds s.calls ∧ ∀ move ∈ moves, Blameless move := by
  have hfit : 0 + Situation.grants moves < 2 ^ 32 := by rwa [Nat.zero_add]
  obtain ⟨hsteady, -, hblameless⟩ := (steady_fresh q).run hrun hfit
  exact ⟨hsteady, hblameless⟩

/-- Writers exclude everybody, the fields of the lock account for who is inside and who sleeps, and
nothing but misuse is ever refused with a fault. -/
theorem tallies_match (q : Quotas)
    (hrun : Situation.Run Uncrowded (Situation.fresh (QuotaLock.ofQuotas q)) moves s)
    (hfew : Situation.grants moves < 2 ^ 32) :
    let l := s.calls.lock
    let h := s.holds
    (h.writes ≤ 1 ∧ (h.writes = 1 → h.reads = 0)) ∧
      l.active.toNat = h.reads + h.writes ∧
      (0 < h.reads → l.mode = some .read) ∧ (0 < h.writes → l.mode = some .write) ∧
      l.readersWaiting.toNat = s.calls.sleeping .read ∧
      l.writersWaiting.toNat = s.calls.sleeping .write ∧
      (l.mode = some .write → l.active.toNat ≤ 1) ∧
      (0 < l.active → l.mode ≠ none) ∧
      (∀ m, l.returnTo = some m → 0 < l.active ∧ ∃ m', l.mode = some m' ∧ m' ≠ m) ∧
      l.active.toNat ≤ l.granted.toNat ∧
      (l.active = 0 → l.granted = 0 ∧ l.returnTo = none) ∧
      (∀ m, (l.unlock m).result = .ok .done → 0 < l.active) ∧
      (∀ sleeper ∈ s.calls.sleepers, 0 < l.waiting sleeper.mode) ∧
      ∀ move ∈ moves, (∀ r ∈ move.report.returned, r.result = .ok ()) ∧
        ∀ f, move.report.answer = .reply (.fault f) →
          ∃ misuse holding, f = .notHeld misuse holding := by
  obtain ⟨hsteady, hblameless⟩ := steady_run q hrun hfew
  have ht := hsteady.tallied
  refine ⟨⟨ht.alone, fun hw ↦ ht.reads_eq_zero (hw ▸ Nat.one_pos)⟩, ht.active, ht.mode .read,
    ht.mode .write, ht.waiting .read, ht.waiting .write, fun hm ↦ ?_, fun hactive hnone ↦ ?_,
    fun m hr ↦ ?_, ?_, fun hfree ↦ ?_, fun m hdone ↦ ?_, fun sleeper hmem ↦ ?_, fun move hmem ↦ ?_⟩
  · rw [ht.active]
    exact ht.total_le_one hm
  · obtain ⟨m, hm⟩ := ht.exists_mode (ht.active_pos_iff.1 hactive)
    rw [hnone] at hm
    cases hm
  · obtain ⟨htotal, hne⟩ := ht.returnTo m hr
    obtain ⟨m', hm'⟩ := ht.exists_mode htotal
    exact ⟨ht.active_pos_iff.2 htotal, m', hm', fun he ↦ hne (he ▸ hm')⟩
  · rw [ht.active]
    exact ht.granted
  · have htotal := ht.active_eq_zero_iff.1 hfree
    exact ⟨(hsteady.idle htotal).1, ht.returnTo_eq_none htotal⟩
  · refine ht.active_pos_iff.2 (Nat.pos_of_ne_zero fun htotal ↦ ?_)
    rw [unlock_of_not_held (.inl (ht.active_eq_zero_iff.2 htotal))] at hdone
    cases hdone
  · rw [UInt32.lt_iff_toNat_lt, ht.waiting]
    exact List.countP_pos_iff.2 ⟨sleeper, hmem, beq_self_eq_true _⟩
  · have hb := hblameless move hmem
    refine ⟨fun r hr ↦ ?_, hb.answer⟩
    have hgranted := List.all_eq_true.1 hb.returned r hr
    cases hresult : r.result with
    | ok _ => rfl
    | error f =>
      rw [Returned.granted, hresult] at hgranted
      cases hgranted

theorem tallies_match_downgraded :
    ∃ moves s, Situation.Run Uncrowded (Situation.fresh (QuotaLock.ofQuotas {})) moves s ∧
      Situation.grants moves = 2 ∧ moves.length = 6 ∧ s.holds = ⟨2, 0⟩ ∧
      s.calls.lock.active.toNat = 2 ∧ s.calls.lock.mode = some .read ∧
      s.calls.lock.returnTo = some .write ∧ s.calls.lock.writersWaiting.toNat = 1 := by
  -- A reader joins a downgraded writer in front of a sleeping one; two releases are misuse.
  obtain ⟨moves, s, hrun, hgrants, hlength, hholds, hreturn, hwrite⟩ :
      ∃ moves s, Situation.Run Uncrowded (Situation.fresh (QuotaLock.ofQuotas {})) moves s ∧
        Situation.grants moves = 2 ∧ moves.length = 6 ∧ s.holds = ⟨2, 0⟩ ∧
        s.calls.lock.returnTo = some .write ∧ s.calls.sleeping .write = 1 :=
    ⟨_, _,
      .cons (.intro (.lock .write "first") (.refl _) rfl) (by decide) <|
      .cons (.intro (.lock .write "second") (.refl _) rfl) (by decide) <|
      .cons (.intro (.request (.unlock .read)) (.refl _) rfl) (by decide) <|
      .cons (.intro (.request .downgrade) (.refl _) rfl) (by decide) <|
      .cons (.intro (.request (.tryLock .read)) (.refl _) rfl) (by decide) <|
      .cons (.intro (.request (.unlock .write)) (.refl _) rfl) (by decide) <|
      .nil _, rfl, rfl, rfl, rfl, rfl⟩
  obtain ⟨-, hactive, hread, -, -, hwaiting, -⟩ :=
    tallies_match {} hrun (by rw [hgrants]; decide)
  rw [hholds] at hactive hread
  exact ⟨moves, s, hrun, hgrants, hlength, hholds, hactive, hread Nat.two_pos, hreturn,
    hwaiting.trans hwrite⟩

end SyncKit.QuotaLock
