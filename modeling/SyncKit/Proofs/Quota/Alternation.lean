import Mathlib.Algebra.Ring.Nat
import SyncKit.Proofs.Quota.Turnover

namespace SyncKit.QuotaLock

variable {s t : Situation QuotaLock Mode} {move : Situation.Move QuotaLock Mode Fault}
  {moves later : List (Situation.Move QuotaLock Mode Fault)}

section Turning

structure Turns (s : Situation QuotaLock Mode) (move : Situation.Move QuotaLock Mode Fault)
    (t : Situation QuotaLock Mode) : Prop where
  steady : Steady s.holds s.calls
  turnover : Turnover s.calls move.admitted t.calls

theorem Steady.turns (hs : Steady s.holds s.calls) (hquota : s.calls.lock.readQuota ≠ 0)
    (hstep : Situation.Step s move t) (hroom : Uncrowded s move t)
    (hfit : s.calls.lock.granted.toNat + move.grants < 2 ^ 32) : Turns s move t := by
  refine ⟨hs, ?_⟩
  obtain ⟨sleepers, hp, hcases⟩ := hs.step_cases hstep hroom hfit
  rcases hcases with ⟨hcalls, -, hreturned, hmet, -⟩ |
    ⟨d, out, hd, rfl, hroom', hserved, hgrants, hcalls, -, hreturned, hmet, -⟩
  · rw [Situation.Move.admitted_of_unmet hmet hreturned, hcalls]
    exact .nobody rfl rfl (fun m ↦ Nat.le_of_eq (hp.countP_eq _).symm) rfl rfl
  · rw [Situation.Move.admitted_of_demand hd hmet hreturned, hcalls]
    have hfit' := Nat.lt_of_le_of_lt (Nat.add_le_add_left hgrants _) hfit
    exact (hserved.turnover (hs.perm hp) hquota hroom' hfit').perm hp

theorem Steady.turning (hrun : Situation.Run Uncrowded s moves t) (hs : Steady s.holds s.calls)
    (hquota : s.calls.lock.readQuota ≠ 0)
    (hfit : s.calls.lock.granted.toNat + Situation.grants moves < 2 ^ 32) :
    Situation.Run Turns s moves t := by
  induction hrun with
  | nil s => exact .nil s
  | @cons s t u move moves hstep hroom _ ih =>
    have hsum : Situation.grants (move :: moves) = move.grants + Situation.grants moves := rfl
    have hkept := hs.step hstep hroom (by omega)
    have hcounted := hkept.counted
    have hturns := hs.turns hquota hstep hroom (by omega)
    refine .cons hstep hturns (ih hkept.steady ?_ (by omega))
    rwa [hturns.turnover.readQuota]

end Turning

section Quotas

variable {l l' : QuotaLock} {m : Mode} {k : Nat}

def writesLeft (l : QuotaLock) : Nat :=
  if l.began = some .write then l.writeQuota.toNat - l.granted.toNat else l.writeQuota.toNat

/-- How many readers can still join a downgraded write before the writers that wait. -/
def joinsLeft (l : QuotaLock) : Nat :=
  if l.began = some .write then l.readQuota.toNat - l.granted.toNat else 0

/-- How many readers can still come in otherwise before the writers that wait. -/
def readsLeft (l : QuotaLock) : Nat :=
  if l.began = some .write then l.readQuota.toNat else l.readQuota.toNat - l.granted.toNat

theorem Passes.writesLeft_le (hp : Passes l m k l') (hm : 0 < k → m ≠ .read)
    (hreaders : l.readersWaiting ≠ 0) (hquota : l.writeQuota ≠ 0)
    (hsame : l'.writeQuota = l.writeQuota) : k + l'.writesLeft ≤ l.writesLeft := by
  have hpos : 0 < l.writeQuota.toNat := by
    rw [Nat.pos_iff_ne_zero]
    exact fun hz ↦ hquota (UInt32.toNat_inj.1 hz)
  cases hp with
  | goesOn began granted readers within =>
    have hk : k = 0 := Nat.eq_zero_of_not_pos fun hk ↦ hm hk (readers hk)
    simp only [writesLeft, began, hsame]
    split <;> omega
  | toReaders pos => exact absurd rfl (hm pos)
  | toWriter began granted =>
    simp only [writesLeft, began, hsame, ↓reduceIte]
    rcases granted with ⟨hone, hfirst | hnone⟩ | ⟨hnext, hwrite, hlt⟩
    · rw [if_neg hfirst]
      omega
    · exact absurd hnone hreaders
    · rw [UInt32.lt_iff_toNat_lt] at hlt
      rw [if_pos hwrite]
      omega

theorem Passes.readsLeft_le (hp : Passes l m k l') (hm : 0 < k → m ≠ .write)
    (hwriters : l.writersWaiting ≠ 0) (hsame : l'.readQuota = l.readQuota) :
    let joining := if l'.began = some .write then k else 0
    joining + l'.joinsLeft ≤ l.joinsLeft ∧ k + l'.readsLeft ≤ joining + l.readsLeft := by
  have hle {n : UInt32} (hn : n ≤ l.readQuota) : n.toNat ≤ l.readQuota.toNat :=
    UInt32.le_iff_toNat_le.1 hn
  cases hp with
  | goesOn began granted readers within =>
    have hwithin : 0 < k → l'.granted.toNat ≤ l.readQuota.toNat := fun hk ↦
      hle (within hk hwriters)
    simp only [joinsLeft, readsLeft, began, hsame]
    split <;> constructor <;> omega
  | toReaders pos began granted due =>
    obtain ⟨hwrite, -, hquota⟩ := due hwriters
    have hquota' := hle hquota
    simp only [joinsLeft, readsLeft, began, hsame, hwrite]
    constructor
    · simp
    · simp
      omega
  | toWriter => exact absurd rfl (hm Nat.one_pos)

end Quotas

section Waiting

variable {m : Mode}

theorem Turns.overlooks (ht : Turns s move t) (hasleep : 0 < s.calls.sleeping m)
    (hno : m ∉ move.admitted) :
    0 < t.calls.sleeping m ∧ s.calls.lock.waiting m ≠ 0 ∧
      ∃ m' k, move.admitted = List.replicate k m' ∧ (0 < k → m' ≠ m) ∧
        Passes s.calls.lock m' k t.calls.lock := by
  have hstays := ht.turnover.stays m
  rw [List.count_eq_zero_of_not_mem hno] at hstays
  obtain ⟨m', k, hadmitted, hpasses⟩ := ht.turnover.passes
  refine ⟨by omega, ?_, m', k, hadmitted, fun hk hsame ↦ hno ?_,
    hpasses (Contended.sleepers_ne_nil hasleep)⟩
  · rw [Ne, ht.steady.tallied.waiting_eq_zero_iff]
    omega
  · rw [hadmitted, List.mem_replicate]
    exact ⟨Nat.ne_of_gt hk, hsame.symm⟩

theorem length_admitted_le (hrun : Situation.Run Turns s later t)
    (hquota : s.calls.lock.writeQuota ≠ 0) (hasleep : 0 < s.calls.sleeping .read)
    (hno : .read ∉ Situation.admitted later) :
    (Situation.admitted later).length ≤ s.calls.lock.writesLeft := by
  induction hrun with
  | nil => exact Nat.zero_le _
  | @cons s t u move later _ hturns _ ih =>
    rw [Situation.admitted_cons, List.mem_append, not_or] at hno
    obtain ⟨hfirst, hlater⟩ := hno
    obtain ⟨hasleep', hwaiting, m, k, hadmitted, hm, hpasses⟩ := hturns.overlooks hasleep hfirst
    have hsame := hturns.turnover.writeQuota
    have hpass := hpasses.writesLeft_le hm hwaiting hquota hsame
    have hrest := ih (hsame ▸ hquota) hasleep' hlater
    rw [Situation.admitted_cons, List.length_append, hadmitted, List.length_replicate]
    omega

/-- The readers that a move lets in among those of a downgraded write. -/
def joiners (move : Situation.Move QuotaLock Mode Fault) : Nat :=
  if move.report.after.any (·.calls.lock.began == some .write) then move.admitted.count .read
  else 0

def allJoiners (moves : List (Situation.Move QuotaLock Mode Fault)) : Nat :=
  (moves.map joiners).sum

theorem joiners_eq (hstep : Situation.Step s move t) :
    joiners move =
      if t.calls.lock.began = some .write then move.admitted.count .read else 0 := by
  rw [joiners, hstep.after_eq]
  simp only [Option.any_some, beq_iff_eq]
  rfl

theorem reads_le (hrun : Situation.Run Turns s later t) (hasleep : 0 < s.calls.sleeping .write)
    (hno : .write ∉ Situation.admitted later) :
    allJoiners later ≤ s.calls.lock.joinsLeft ∧
      (Situation.admitted later).length ≤ allJoiners later + s.calls.lock.readsLeft := by
  induction hrun with
  | nil => exact ⟨Nat.zero_le _, Nat.zero_le _⟩
  | @cons s t u move later hstep hturns _ ih =>
    rw [Situation.admitted_cons, List.mem_append, not_or] at hno
    obtain ⟨hfirst, hlater⟩ := hno
    obtain ⟨hasleep', hwaiting, m, k, hadmitted, hm, hpasses⟩ := hturns.overlooks hasleep hfirst
    have hpass := hpasses.readsLeft_le hm hwaiting hturns.turnover.readQuota
    obtain ⟨hjoins, hreads⟩ := ih hasleep' hlater
    have hcount : move.admitted.count .read = k := by
      rw [hadmitted, List.count_replicate]
      cases m with
      | read => rfl
      | write =>
        have hk : ¬ 0 < k := fun hk ↦ hm hk rfl
        simp
        omega
    have hjoiners := joiners_eq hstep
    rw [hcount] at hjoiners
    rw [← hjoiners] at hpass
    have hsum : allJoiners (move :: later) = joiners move + allJoiners later := rfl
    rw [Situation.admitted_cons, List.length_append, hadmitted, List.length_replicate, hsum]
    omega

end Waiting

section Bounds

theorem quotas_eq (hrun : Situation.Run Turns s moves t) :
    t.calls.lock.readQuota = s.calls.lock.readQuota ∧
      t.calls.lock.writeQuota = s.calls.lock.writeQuota := by
  induction hrun with
  | nil => exact ⟨rfl, rfl⟩
  | cons _ hturns _ ih =>
    obtain ⟨hread, hwrite⟩ := ih
    exact ⟨hread.trans hturns.turnover.readQuota, hwrite.trans hturns.turnover.writeQuota⟩

theorem admitted_alike (hrun : Situation.Run Turns s moves t) :
    ∀ move ∈ moves, ∃ m k, move.admitted = List.replicate k m := by
  induction hrun with
  | nil => exact fun _ hmem ↦ absurd hmem List.not_mem_nil
  | cons _ hturns _ ih =>
    obtain ⟨m, k, hadmitted, -⟩ := hturns.turnover.passes
    exact List.forall_mem_cons.2 ⟨⟨m, k, hadmitted⟩, ih⟩

structure Halves (q : Quotas) (moves : List (Situation.Move QuotaLock Mode Fault))
    (s : Situation QuotaLock Mode) (later : List (Situation.Move QuotaLock Mode Fault))
    (t : Situation QuotaLock Mode) : Prop where
  steady : Steady s.holds s.calls
  turning : Situation.Run Turns s later t
  alike : ∀ move ∈ moves ++ later, ∃ m k, move.admitted = List.replicate k m
  readQuota : s.calls.lock.readQuota = q.effectiveRead
  writeQuota : s.calls.lock.writeQuota = q.effectiveWrite

theorem halves (q : Quotas)
    (hrun : Situation.Run Uncrowded (Situation.fresh (QuotaLock.ofQuotas q)) moves s)
    (hlater : Situation.Run Uncrowded s later t)
    (hfew : Situation.grants (moves ++ later) < 2 ^ 32) : Halves q moves s later t := by
  rw [Situation.grants_append] at hfew
  have hfresh := steady_fresh q
  have hfit : 0 + Situation.grants moves < 2 ^ 32 := by omega
  have hturning := hfresh.turning hrun q.effectiveRead_ne_zero hfit
  obtain ⟨hread, hwrite⟩ := quotas_eq hturning
  obtain ⟨hs, hcounted, -⟩ := hfresh.run hrun hfit
  change _ ≤ 0 + _ at hcounted
  have hquota : s.calls.lock.readQuota ≠ 0 := by
    rw [hread]
    exact q.effectiveRead_ne_zero
  have hlater' := hs.turning hlater hquota (by omega)
  refine ⟨hs, hlater', fun move hmem ↦ ?_, hread, hwrite⟩
  rcases List.mem_append.1 hmem with hbefore | hafter
  · exact admitted_alike hturning move hbefore
  · exact admitted_alike hlater' move hafter

/-- While a reader sleeps and no reader gets in, at most a quota of writers does. -/
theorem writes_within_quota (q : Quotas)
    (hrun : Situation.Run Uncrowded (Situation.fresh (QuotaLock.ofQuotas q)) moves s)
    (hasleep : 0 < s.calls.sleeping .read) (hlater : Situation.Run Uncrowded s later t)
    (hfew : Situation.grants (moves ++ later) < 2 ^ 32)
    (hno : .read ∉ Situation.admitted later) :
    (Situation.admitted later).count .write ≤ q.effectiveWrite.toNat ∧
      ∀ move ∈ moves ++ later, ∃ m k, move.admitted = List.replicate k m := by
  have hh := halves q hrun hlater hfew
  refine ⟨?_, hh.alike⟩
  have hquota : s.calls.lock.writeQuota ≠ 0 := by
    rw [hh.writeQuota]
    exact q.effectiveWrite_ne_zero
  have hle := length_admitted_le hh.turning hquota hasleep hno
  have hleft : s.calls.lock.writesLeft ≤ q.effectiveWrite.toNat := by
    rw [writesLeft, hh.writeQuota]
    split <;> omega
  exact Nat.le_trans List.count_le_length (Nat.le_trans hle hleft)

theorem writes_within_quota_of_two :
    ∃ moves s later t,
      Situation.Run Uncrowded (Situation.fresh (QuotaLock.ofQuotas ⟨1, 2⟩)) moves s ∧
      0 < s.calls.sleeping .read ∧ Situation.Run Uncrowded s later t ∧
      Situation.admitted later = [.write, .write] ∧
      (Situation.admitted later).count .write ≤ (Quotas.mk 1 2).effectiveWrite.toNat := by
  -- Two writers and a reader sleep behind a reader. Both writers come before the reader.
  obtain ⟨moves, s, later, t, hrun, hasleep, hlater, hgrants, hadmitted⟩ :
      ∃ moves s later t,
        Situation.Run Uncrowded (Situation.fresh (QuotaLock.ofQuotas ⟨1, 2⟩)) moves s ∧
        0 < s.calls.sleeping .read ∧ Situation.Run Uncrowded s later t ∧
        Situation.grants (moves ++ later) = 3 ∧ Situation.admitted later = [.write, .write] :=
    ⟨_, _, _, _,
      .cons (.intro (.request (.tryLock .read)) (.refl _) rfl) (by decide) <|
      .cons (.intro (.lock .write "first") (.refl _) rfl) (by decide) <|
      .cons (.intro (.lock .write "second") (.refl _) rfl) (by decide) <|
      .cons (.intro (.lock .read "third") (.refl _) rfl) (by decide) <|
      .nil _, by decide,
      .cons (.intro (.request (.unlock .read)) (.refl _) rfl) (by decide) <|
      .cons (.intro (.request (.unlock .write)) (.refl _) rfl) (by decide) <|
      .nil _, rfl, rfl⟩
  obtain ⟨hwithin, -⟩ := writes_within_quota ⟨1, 2⟩ hrun hasleep hlater
    (by rw [hgrants]; decide) (by rw [hadmitted]; decide)
  exact ⟨moves, s, later, t, hrun, hasleep, hlater, hadmitted, hwithin⟩

/-- While a writer sleeps and no writer gets in, the readers that join a downgraded write are fewer
than a quota, and the others are at most a quota. -/
theorem reads_within_quota_and_joiners (q : Quotas)
    (hrun : Situation.Run Uncrowded (Situation.fresh (QuotaLock.ofQuotas q)) moves s)
    (hasleep : 0 < s.calls.sleeping .write) (hlater : Situation.Run Uncrowded s later t)
    (hfew : Situation.grants (moves ++ later) < 2 ^ 32)
    (hno : .write ∉ Situation.admitted later) :
    allJoiners later < q.effectiveRead.toNat ∧
      (Situation.admitted later).count .read ≤ allJoiners later + q.effectiveRead.toNat ∧
      ∀ move ∈ moves ++ later, ∃ m k, move.admitted = List.replicate k m := by
  have hh := halves q hrun hlater hfew
  obtain ⟨hjoins, hreads⟩ := reads_le hh.turning hasleep hno
  have hpos : 0 < q.effectiveRead.toNat := by
    rw [Nat.pos_iff_ne_zero]
    exact fun hz ↦ q.effectiveRead_ne_zero (UInt32.toNat_inj.1 hz)
  -- Somebody holds the lock that the writer sleeps in front of, and was counted.
  have hgranted : 0 < s.calls.lock.granted.toNat := by
    have hheld := hh.steady.held (Contended.sleepers_ne_nil hasleep)
    exact Nat.lt_of_lt_of_le hheld hh.steady.tallied.granted
  refine ⟨?_, ?_, hh.alike⟩
  · have hleft : s.calls.lock.joinsLeft < q.effectiveRead.toNat := by
      rw [joinsLeft, hh.readQuota]
      split <;> omega
    omega
  · have hleft : s.calls.lock.readsLeft ≤ q.effectiveRead.toNat := by
      rw [readsLeft, hh.readQuota]
      split <;> omega
    have hcount := List.count_le_length (a := Mode.read) (l := Situation.admitted later)
    omega

/-- A reader joins a downgraded write in front of a sleeping writer, and a reader that sleeps comes
in after it, and one more after that. -/
theorem readers_around_downgrade :
    ∃ moves s later t,
      Situation.Run Uncrowded (Situation.fresh (QuotaLock.ofQuotas ⟨2, 1⟩)) moves s ∧
      0 < s.calls.sleeping .write ∧ Situation.Run Uncrowded s later t ∧
      Situation.grants (moves ++ later) = 4 ∧
      Situation.admitted later = [.read, .read, .read] ∧ allJoiners later = 1 :=
  ⟨_, _, _, _,
    .cons (.intro (.request (.tryLock .write)) (.refl _) rfl) (by decide) <|
    .cons (.intro (.lock .write "writer") (.refl _) rfl) (by decide) <|
    .nil _, by decide,
    .cons (.intro (.request .downgrade) (.refl _) rfl) (by decide) <|
    .cons (.intro (.request (.tryLock .read)) (.refl _) rfl) (by decide) <|
    .cons (.intro (.lock .read "reader") (.refl _) rfl) (by decide) <|
    .cons (.intro (.request (.unlock .read)) (.refl _) rfl) (by decide) <|
    .cons (.intro (.request (.unlock .read)) (.refl _) rfl) (by decide) <|
    .cons (.intro (.request (.tryLock .read)) (.refl _) rfl) (by decide) <|
    .nil _, rfl, rfl, rfl⟩

theorem reads_within_quota_and_joiners_of_one :
    ∃ moves s later t,
      Situation.Run Uncrowded (Situation.fresh (QuotaLock.ofQuotas ⟨2, 1⟩)) moves s ∧
      0 < s.calls.sleeping .write ∧ Situation.Run Uncrowded s later t ∧ allJoiners later = 1 ∧
      (Situation.admitted later).count .read ≤ 1 + (Quotas.mk 2 1).effectiveRead.toNat := by
  obtain ⟨moves, s, later, t, hrun, hasleep, hlater, hgrants, hadmitted, hjoiners⟩ :=
    readers_around_downgrade
  obtain ⟨-, hreads, -⟩ := reads_within_quota_and_joiners ⟨2, 1⟩ hrun hasleep hlater
    (by rw [hgrants]; decide) (by rw [hadmitted]; decide)
  rw [hjoiners] at hreads
  exact ⟨moves, s, later, t, hrun, hasleep, hlater, hjoiners, hreads⟩

/-- The read quota alone does not bound the readers that come in before a sleeping writer. -/
theorem reads_exceed_quota :
    ∃ moves s later t,
      Situation.Run Uncrowded (Situation.fresh (QuotaLock.ofQuotas ⟨2, 1⟩)) moves s ∧
      0 < s.calls.sleeping .write ∧ Situation.Run Uncrowded s later t ∧
      Situation.grants (moves ++ later) < 2 ^ 32 ∧ .write ∉ Situation.admitted later ∧
      ¬ (Situation.admitted later).count .read ≤ (Quotas.mk 2 1).effectiveRead.toNat := by
  obtain ⟨moves, s, later, t, hrun, hasleep, hlater, hgrants, hadmitted, -⟩ :=
    readers_around_downgrade
  refine ⟨moves, s, later, t, hrun, hasleep, hlater, ?_, ?_, ?_⟩
  · rw [hgrants]
    decide
  · rw [hadmitted]
    decide
  · rw [hadmitted]
    decide

end Bounds

end SyncKit.QuotaLock
