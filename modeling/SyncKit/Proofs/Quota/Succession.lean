import SyncKit.Proofs.Quota.Alternation
import SyncKit.Proofs.Quota.Readable

namespace SyncKit.QuotaLock

/-- In which modes sleepers come in when the last holder leaves, by the mode in which its hold began
and by how many readers and writers sleep. -/
def heirs (l : QuotaLock) (base : Mode) (readers writers : Nat) : List Mode :=
  match base with
  | .read => if 0 < writers then [.write] else List.replicate readers .read
  | .write =>
    if readers = 0 then if 0 < writers then [.write] else []
    else if 0 < writers ∧ l.granted < l.writeQuota then [.write]
    else List.replicate (if 0 < writers then min readers l.readQuota.toNat else readers) .read

section Heirs

variable {l : QuotaLock} {base : Mode} {readers writers : Nat}

theorem heirs_of_nobody : l.heirs base 0 0 = [] := by cases base <;> rfl

theorem heirs_of_writer (hw : 0 < writers)
    (hfirst : base = .read ∨ readers = 0 ∨ l.granted < l.writeQuota) :
    l.heirs base readers writers = [.write] := by
  cases base with
  | read => exact if_pos hw
  | write =>
    simp only [heirs, hw, ↓reduceIte, true_and]
    split
    · rfl
    · next hr => rw [if_pos (by simpa [hr] using hfirst)]

theorem heirs_of_readers (hr : 0 < readers)
    (hdue : writers = 0 ∨ base = .write ∧ ¬ l.granted < l.writeQuota) :
    l.heirs base readers writers =
      List.replicate (if writers = 0 then readers else min readers l.readQuota.toNat) .read := by
  rcases Nat.eq_zero_or_pos writers with rfl | hw
  · cases base with
    | read => rfl
    | write => simp [heirs, Nat.ne_of_gt hr]
  · obtain ⟨rfl, hspent⟩ := hdue.resolve_left (Nat.ne_of_gt hw)
    simp [heirs, hspent, hw, Nat.ne_of_gt hw, Nat.ne_of_gt hr]

end Heirs

namespace Steady

variable {κ : Type} {h : Holds} {c : Contended QuotaLock Mode κ} {m : Mode}

/-- The last holder leaves, and exactly its heirs come in. -/
theorem modes_handOff (hs : Steady h c) (hquota : c.lock.readQuota ≠ 0) (base : Mode) :
    let vacant := { c.lock with active := 0, mode := some base, returnTo := none }
    Returned.modes (Contended.settle vacant.handOff c.sleepers).returned =
      c.lock.heirs base (c.sleeping .read) (c.sleeping .write) := by
  intro vacant
  let run := Contended.settle vacant.handOff c.sleepers
  change Returned.modes run.returned = _
  obtain ⟨mode, granted, signals, hsignals, hlock, ht, hhands, ho, hfit, hsome⟩ :=
    hs.handedOff (rfl : vacant = _) (rfl : run = _)
  have hread : c.lock.readersWaiting.toNat = c.sleeping .read := hs.tallied.waiting .read
  have hwrite : c.lock.writersWaiting.toNat = c.sleeping .write := hs.tallied.waiting .write
  have hnone : c.lock.writersWaiting = 0 ↔ c.sleeping .write = 0 :=
    hs.tallied.waiting_eq_zero_iff (m := .write)
  cases hhands with
  | toNobody hr hw =>
    have hsilent : run = _ := Contended.settle_of_silent hsignals c.sleepers
    rw [← hread, ← hwrite, show c.lock.readersWaiting = 0 from hr,
      show c.lock.writersWaiting = 0 from hw, hsilent]
    exact heirs_of_nobody.symm
  | toWriter hw hcount =>
    rw [gt_iff_lt, UInt32.lt_iff_toNat_lt] at hw
    have hpos : 0 < c.sleeping .write := Nat.lt_of_lt_of_eq hw hwrite
    have hk := hsome (Contended.sleepers_ne_nil hpos)
    obtain ⟨hin, hmodes⟩ := letsIn_settle (.inl rfl) ht hsignals hfit
    change LetsIn .write run.returned.length _ run.lock at hin
    change Returned.modes run.returned = List.replicate run.returned.length .write at hmodes
    have hmode : run.lock.mode = some .write := hin.mode.trans (if_neg (Nat.ne_of_gt hk))
    rw [hmodes, ho.returned_eq_one hmode hk, heirs_of_writer hpos]
    · rfl
    · rcases hcount with ⟨-, hfirst | hr⟩ | ⟨-, -, hlt⟩
      · exact .inl hfirst
      · exact .inr (.inl (hs.tallied.waiting_eq_zero_iff.1 hr))
      · exact .inr (.inr hlt)
  | toReaders hr hdue =>
    rw [gt_iff_lt, UInt32.lt_iff_toNat_lt] at hr
    have hpos : 0 < c.sleeping .read := Nat.lt_of_lt_of_eq hr hread
    have hk := hsome (Contended.sleepers_ne_nil hpos)
    obtain ⟨hin, hmodes⟩ := letsIn_settle (.inr rfl) ht hsignals hfit
    change LetsIn .read run.returned.length _ run.lock at hin
    change Returned.modes run.returned = List.replicate run.returned.length .read at hmodes
    have hasleep := ho.sleeping_eq .read
    change run.asleep.countP (·.mode == .read) + (Returned.modes run.returned).count .read =
      c.sleeping .read at hasleep
    rw [hmodes, List.count_replicate_self] at hasleep
    -- Every reader was woken, so one that sleeps on found the quota used up.
    have hcount := hin.count_eq (.inl hk) (fun _ ↦ ?_) (run.asleep.countP (·.mode == .read))
      (admits_settle_of_asleep ht hsignals hfit)
    · rw [hasleep, hlock] at hcount
      rw [hmodes, heirs_of_readers (l := c.lock) hpos (hdue.imp_left hnone.1)]
      refine congrArg (List.replicate · _) (hcount.trans ?_)
      simp only [hnone]
      rfl
    · rw [hlock, UInt32.lt_iff_toNat_lt]
      exact Nat.pos_of_ne_zero fun hq ↦ hquota (UInt32.toNat_inj.1 hq)

theorem unlock_shared (hs : Steady h c) (hpos : 0 < h.of m) (hshared : 1 < c.lock.active) :
    c.request (F := Fault) (.unlock m) =
      { reply := .done, after := { c with lock.active := c.lock.active - 1 } } := by
  obtain ⟨hmode, htotal⟩ := hs.tallied.of_pos_iff.1 hpos
  have hone : c.lock.active ≠ 1 := fun hone ↦ by
    rw [hone] at hshared
    exact absurd hshared (by decide)
  rw [Contended.request_of_done (r := .unlock m)
    (unlock_of_shared hmode (hs.tallied.active_ne_zero htotal) hone)]
  rfl

theorem modes_unlock (hs : Steady h c) (hquota : c.lock.readQuota ≠ 0) (hpos : 0 < h.of m)
    (hone : c.lock.active = 1) :
    ∃ base, c.lock.began = some base ∧
      Returned.modes (c.request (F := Fault) (.unlock m)).returned =
        c.lock.heirs base (c.sleeping .read) (c.sleeping .write) := by
  obtain ⟨hmode, -⟩ := hs.tallied.of_pos_iff.1 hpos
  obtain ⟨base, hbase, hstep⟩ := unlock_of_last hmode hone
  have hmodes := hs.modes_handOff hquota base
  dsimp only at hmodes
  rw [← hstep] at hmodes
  exact ⟨base, hbase, hmodes⟩

end Steady

section Moves

variable {s : Situation QuotaLock Mode} {moves : List (Situation.Move QuotaLock Mode Fault)}

/-- When the last holder leaves exactly its heirs come in, whichever sleepers are woken and in
whatever order they run. Before that a release lets in nobody. -/
theorem vacancy_filled (q : Quotas)
    (hrun : Situation.Run Uncrowded (Situation.fresh (QuotaLock.ofQuotas q)) moves s)
    (hfew : Situation.grants moves < 2 ^ 32) :
    let c := s.calls
    ∀ (move : Situation.Move QuotaLock Mode Fault) (t : Situation QuotaLock Mode) (m : Mode),
      Situation.Step s move t → s.guarded.demand? move.op = some (.request (.unlock m)) →
      0 < s.holds.of m →
        move.report.answer.met = true ∧
          (move.report.returned ++ t.calls.sleepers.map Sleeper.granted).Perm
            (c.sleepers.map Sleeper.granted) ∧
          (c.lock.active = 1 → ∃ base, c.lock.returnTo.or c.lock.mode = some base ∧
            Returned.modes move.report.returned =
              c.lock.heirs base (c.sleeping .read) (c.sleeping .write)) ∧
          (1 < c.lock.active → move.report.returned = [] ∧ t.calls.sleepers.Perm c.sleepers ∧
            t.calls.lock = { c.lock with active := c.lock.active - 1 }) := by
  have hh := halves q hrun (.nil s) (by rwa [List.append_nil])
  have hquota : s.calls.lock.readQuota ≠ 0 := hh.readQuota ▸ q.effectiveRead_ne_zero
  intro c move t m hstep hd hpos
  obtain ⟨sleepers, hp, out, hout, -, hmet, hserved⟩ := hstep.serves_demand hd
  change _ = Contended.request (.unlock m) { s.calls with sleepers } at hout
  have hs := hh.steady.perm hp
  obtain ⟨hreply, ⟨_, -, ho⟩, -⟩ := hs.unlock hpos
  rw [← hout] at hreply ho
  obtain ⟨hcalls, -, hreturned⟩ := hserved (by rw [hreply]; rfl)
  rw [hmet, hreply, hreturned, hcalls]
  refine ⟨rfl, ho.conserved.trans (hp.map _), fun hone ↦ ?_, fun hshared ↦ ?_⟩
  · obtain ⟨base, hbase, hmodes⟩ := hs.modes_unlock hquota hpos hone
    have hsleeping (m : Mode) : Contended.sleeping { s.calls with sleepers } m = c.sleeping m :=
      hp.countP_eq _
    rw [hsleeping, hsleeping, ← hout] at hmodes
    exact ⟨base, hbase, hmodes⟩
  · rw [hs.unlock_shared hpos hshared] at hout
    rw [hout]
    exact ⟨rfl, hp, rfl⟩

/-- Three readers and a writer sleep behind a writer that has used up its quota: of the readers that
its release wakes, the read quota lets in two. -/
theorem vacancy_filled_within_quota :
    ∃ moves s, Situation.Run Uncrowded
        (Situation.fresh (QuotaLock.ofQuotas { read := 2, write := 1 })) moves s ∧
      s.calls.sleeping .read = 3 ∧ s.calls.sleeping .write = 1 ∧
      ∃ (move : Situation.Move QuotaLock Mode Fault) (t : _), Situation.Step s move t ∧
        Returned.modes move.report.returned = [.read, .read] := by
  obtain ⟨moves, s, hrun, hgrants, hreaders, hwriters, hholds, hactive, hbegan, hquotas, move, t,
      hstep, hd⟩ :
      ∃ moves s, Situation.Run Uncrowded
          (Situation.fresh (QuotaLock.ofQuotas { read := 2, write := 1 })) moves s ∧
        Situation.grants moves = 1 ∧ s.calls.sleeping .read = 3 ∧ s.calls.sleeping .write = 1 ∧
        s.holds = ⟨0, 1⟩ ∧ s.calls.lock.active = 1 ∧
        s.calls.lock.returnTo.or s.calls.lock.mode = some .write ∧
        (s.calls.lock.granted = 1 ∧ s.calls.lock.writeQuota = 1 ∧ s.calls.lock.readQuota = 2) ∧
        ∃ (move : Situation.Move QuotaLock Mode Fault) (t : _), Situation.Step s move t ∧
          s.guarded.demand? move.op = some (.request (.unlock .write)) :=
    ⟨_, _,
      .cons (.intro (.lock .write "first") (.refl _) rfl) (by decide) <|
      .cons (.intro (.lock .read "second") (.refl _) rfl) (by decide) <|
      .cons (.intro (.lock .write "third") (.refl _) rfl) (by decide) <|
      .cons (.intro (.lock .read "fourth") (.refl _) rfl) (by decide) <|
      .cons (.intro (.acquire "fifth" .read) (.refl _) rfl) (by decide) <|
      .nil _, rfl, rfl, rfl, rfl, rfl, rfl, ⟨rfl, rfl, rfl⟩,
      _, _, .intro (.request (.unlock .write)) (List.reverse_perm _) rfl, rfl⟩
  obtain ⟨-, -, hlast, -⟩ := vacancy_filled { read := 2, write := 1 } hrun
    (by rw [hgrants]; decide) move t .write hstep hd (by rw [hholds]; exact Nat.one_pos)
  obtain ⟨base, hbase, hmodes⟩ := hlast hactive
  obtain rfl := Option.some.inj (hbase.symm.trans hbegan)
  rw [heirs, hreaders, hwriters, hquotas.1, hquotas.2.1, hquotas.2.2] at hmodes
  exact ⟨moves, s, hrun, hreaders, hwriters, move, t, hstep, hmodes⟩

end Moves

end SyncKit.QuotaLock
