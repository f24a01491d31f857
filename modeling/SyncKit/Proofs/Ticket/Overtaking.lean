import SyncKit.Proofs.Ticket.Passage

namespace SyncKit.TicketLock

open Situation (writeGrants returns)

variable {s t : Situation TicketLock Wait} {move : Situation.Move TicketLock Wait Fault}
  {moves later : List (Situation.Move TicketLock Wait Fault)} {quota : UInt32} {n k : Nat}
  {reader : Sleeper Caller Wait}

structure Counted (quota : UInt32) (n : Nat) (s : Situation TicketLock Wait) : Prop where
  sound : Sound s.holds s.calls
  quota : s.calls.lock.writeQuota = Int32.ofIntClamp quota.toNat
  nonneg : 0 ≤ s.calls.lock.granted.toInt
  le : s.calls.lock.granted.toInt ≤ n

/-- A reader that sleeps, with `k` writes made since it was first seen asleep. Once these are as
many as the quota, the last of them is still out. -/
structure Waits (quota : UInt32) (reader : Sleeper Caller Wait) (k : Nat)
    (s : Situation TicketLock Wait) : Prop where
  asleep : reader ∈ s.calls.sleepers
  counted : (k : Int) ≤ s.calls.lock.granted.toInt
  bounded : k ≤ quota.toNat
  last : k = quota.toNat → s.holds.writes = 1

theorem counted_fresh (q : Quotas) :
    Counted q.effectiveWrite 0 (Situation.fresh (TicketLock.ofQuotas q).1) :=
  ⟨sound_fresh q, rfl, Int.le_refl 0, Int.le_refl 0⟩

theorem Counted.step (hc : Counted quota n s) (hstep : Situation.Step s move t)
    (hpeace : Peaceful s move t) (hfew : n + move.writeGrants < 2 ^ 31) :
    Counted quota (n + move.writeGrants) t := by
  have hle := hc.le
  have hnonneg := hc.nonneg
  have hsound := hc.sound.step hstep hpeace
  obtain hquiet | hwrote | hcleared := hc.sound.step_regular hstep hpeace
  · have hgranted : t.calls.lock.granted = s.calls.lock.granted := hquiet.granted
    refine ⟨hsound, hquiet.quota.trans hc.quota, ?_, ?_⟩ <;> rw [hgranted] <;> omega
  · have hgranted : t.calls.lock.granted = s.calls.lock.granted + 1 := hwrote.granted
    have hgrants : move.writeGrants = 1 := hwrote.grants
    have hnext := Word.toInt_succ (a := s.calls.lock.granted) (by omega)
    refine ⟨hsound, hwrote.quota.trans hc.quota, ?_, ?_⟩ <;> rw [hgranted, hnext] <;> omega
  · have hgranted : t.calls.lock.granted = 0 := hcleared.granted
    refine ⟨hsound, hcleared.quota.trans hc.quota, ?_, ?_⟩ <;> rw [hgranted]
    · exact Int.le_refl 0
    · exact Int.natCast_nonneg _

theorem sleeping_read_pos (hmem : reader ∈ s.calls.sleepers) (hmode : reader.mode = .read) :
    0 < s.calls.sleeping .read :=
  List.countP_pos_iff.2 ⟨reader, hmem, beq_iff_eq.2 hmode⟩

theorem Waits.lt_quota (hw : Waits quota reader k s) (hc : Counted quota n s)
    (hmode : reader.mode = .read) (hwrote : (Passage.ofMove s move t).Wrote) :
    k < quota.toNat := by
  have hcounted := hw.counted
  refine Nat.lt_of_le_of_ne hw.bounded fun hlast ↦ ?_
  have hunspent : s.calls.lock.granted < s.calls.lock.writeQuota :=
    hwrote.unspent (hw.last hlast) (sleeping_read_pos hw.asleep hmode)
  have hclamp := Word.toInt_ofIntClamp_le quota.toNat
  rw [hc.quota, Int32.lt_iff_toInt_lt] at hunspent
  omega

/-- Either the reader sleeps on, and another write may have been made, or all sleeping readers come
back. -/
theorem Waits.step (hw : Waits quota reader k s) (hc : Counted quota n s)
    (hmode : reader.mode = .read) (hstep : Situation.Step s move t) (hpeace : Peaceful s move t)
    (hfew : n + move.writeGrants < 2 ^ 31) :
    Waits quota reader (k + move.writeGrants) t ∧ (∀ r ∈ move.report.returned, r.mode = .write) ∨
      (Passage.ofMove s move t).Cleared := by
  have hcounted := hw.counted
  obtain hquiet | hwrote | hcleared := hc.sound.step_regular hstep hpeace
  · have hgranted : t.calls.lock.granted = s.calls.lock.granted := hquiet.granted
    have hgrants : move.writeGrants = 0 := hquiet.grants
    have hreturned : move.report.returned = [] := hquiet.returned
    have hwrites := (hquiet.waits (sleeping_read_pos hw.asleep hmode)).2
    rw [hgrants, hreturned]
    refine .inl ⟨⟨hquiet.stay _ hw.asleep, ?_, hw.bounded, fun hlast ↦ ?_⟩, nofun⟩
    · rwa [hgranted]
    · exact hwrites.trans (hw.last hlast)
  · have hgranted : t.calls.lock.granted = s.calls.lock.granted + 1 := hwrote.granted
    have hgrants : move.writeGrants = 1 := hwrote.grants
    have hle := hc.le
    have hnext := Word.toInt_succ (a := s.calls.lock.granted) (by omega)
    rw [hgrants]
    refine .inl ⟨⟨hwrote.stay _ hw.asleep hmode, ?_, hw.lt_quota hc hmode hwrote,
      fun _ ↦ hwrote.writes⟩, hwrote.returned⟩
    rw [hgranted, hnext]
    omega
  · exact .inr hcleared

/-- When the last write that the quota allows ends, the sleeping readers come back. -/
theorem Waits.due (hw : Waits quota reader quota.toNat s) (hc : Counted quota n s)
    (hmode : reader.mode = .read) (hstep : Situation.Step s move t) (hpeace : Peaceful s move t)
    (hends : (Passage.ofMove s move t).EndsWrite) : (Passage.ofMove s move t).Cleared := by
  obtain hquiet | hwrote | hcleared := hc.sound.step_regular hstep hpeace
  · exact absurd hends (hquiet.waits (sleeping_read_pos hw.asleep hmode)).1
  · exact absurd (hw.lt_quota hc hmode hwrote) (Nat.lt_irrefl _)
  · exact hcleared

theorem Passage.Cleared.mem_returned (hc : (Passage.ofMove s move t).Cleared)
    (hmem : reader ∈ s.calls.sleepers) (hmode : reader.mode = .read) :
    reader.granted ∈ move.report.returned :=
  hc.returned.mem_iff.2
    (List.mem_map_of_mem (List.mem_filter.2 ⟨hmem, beq_iff_eq.2 hmode⟩))

theorem Counted.run (hc : Counted quota n s) (hrun : Situation.Run Peaceful s moves t)
    (hfew : n + writeGrants moves < 2 ^ 31) : Counted quota (n + writeGrants moves) t := by
  induction hrun generalizing n with
  | nil => exact hc
  | cons hstep hpeace _ ih =>
    rw [writeGrants, ← Nat.add_assoc] at hfew ⊢
    exact ih (hc.step hstep hpeace (by omega)) hfew

theorem Waits.run (hw : Waits quota reader k s) (hc : Counted quota n s)
    (hmode : reader.mode = .read) (hrun : Situation.Run Peaceful s later t)
    (hfew : n + writeGrants later < 2 ^ 31) :
    Waits quota reader (k + writeGrants later) t ∧ (∀ r ∈ returns later, r.mode = .write) ∨
      ∃ before move after u v, later = before ++ move :: after ∧
        Situation.Run Peaceful s before u ∧ Situation.Step u move v ∧
        Situation.Run Peaceful v after t ∧ Waits quota reader (k + writeGrants before) u ∧
        (∀ r ∈ returns before, r.mode = .write) ∧ (Passage.ofMove u move v).Cleared := by
  induction hrun generalizing k n with
  | nil => exact .inl ⟨hw, nofun⟩
  | @cons s u t move later hstep hpeace hlater ih =>
    rw [writeGrants, ← Nat.add_assoc] at hfew
    obtain ⟨hwaits, hwriters⟩ | hcleared := hw.step hc hmode hstep hpeace (by omega)
    · have hreturns {moves : List (Situation.Move TicketLock Wait Fault)}
          (hmoves : ∀ r ∈ returns moves, r.mode = .write) :
          ∀ r ∈ returns (move :: moves), r.mode = .write := by
        rw [returns, List.flatMap_cons]
        exact List.forall_mem_append.2 ⟨hwriters, hmoves⟩
      obtain ⟨hasleep, hnone⟩ | ⟨before, back, after, v, w, rfl, hbefore, hback, hafter, hasleep,
        hnone, hcleared⟩ := ih hwaits (hc.step hstep hpeace (by omega)) hfew
      · rw [writeGrants, ← Nat.add_assoc]
        exact .inl ⟨hasleep, hreturns hnone⟩
      · refine .inr ⟨move :: before, back, after, v, w, rfl, .cons hstep hpeace hbefore, hback,
          hafter, ?_, hreturns hnone, hcleared⟩
        rwa [writeGrants, ← Nat.add_assoc]
    · exact .inr ⟨[], move, later, s, u, rfl, .nil s, hstep, hlater, hw, nofun, hcleared⟩

/-- At most the quota of writes are made while a reader sleeps. As long as no reader has come back
it sleeps on, and the last write that the quota allows brings it back when it ends; when a reader
comes back, all that sleep do. -/
theorem overtaken_within_quota (q : Quotas)
    (hrun : Situation.Run Peaceful (Situation.fresh (TicketLock.ofQuotas q).1) moves s)
    (hmem : reader ∈ s.calls.sleepers) (hmode : reader.mode = .read)
    (hlater : Situation.Run Peaceful s later t) (hfew : writeGrants (moves ++ later) < 2 ^ 31) :
    let quota := q.effectiveWrite.toNat
    let Ends (u : Situation TicketLock Wait) (move : Situation.Move TicketLock Wait Fault) : Prop :=
      u.guarded.demand? move.op = some (.request (.unlock .write)) ∨
        u.guarded.demand? move.op = some (.request .downgrade)
    reader ∈ t.calls.sleepers ∧ (∀ r ∈ returns later, r.mode = .write) ∧
        writeGrants later ≤ quota ∧
        (writeGrants later = quota → t.holds.writes = 1 ∧
          ∀ move u, Situation.Step t move u → Peaceful t move u → Ends t move →
            reader.granted ∈ move.report.returned) ∨
      ∃ before move after u v, later = before ++ move :: after ∧
        Situation.Run Peaceful s before u ∧ Situation.Step u move v ∧
        Situation.Run Peaceful v after t ∧ reader ∈ u.calls.sleepers ∧
        (∀ r ∈ returns before, r.mode = .write) ∧ writeGrants before ≤ quota ∧ Ends u move ∧
        move.report.returned.Perm
          ((u.calls.sleepers.filter (·.mode == .read)).map Sleeper.granted) := by
  intro quota Ends
  rw [Situation.writeGrants_append] at hfew
  have hc : Counted q.effectiveWrite (writeGrants moves) s := by
    have hfrom := (counted_fresh q).run hrun (by omega)
    rwa [Nat.zero_add] at hfrom
  have hquota : q.effectiveWrite.toNat ≠ 0 := fun hzero ↦
    q.effectiveWrite_ne_zero (UInt32.toNat_inj.1 hzero)
  have hw : Waits q.effectiveWrite reader 0 s :=
    ⟨hmem, hc.nonneg, Nat.zero_le _, fun hzero ↦ absurd hzero.symm hquota⟩
  have hfinal := hc.run hlater hfew
  obtain ⟨hasleep, hnone⟩ | ⟨before, move, after, u, v, hsplit, hbefore, hstep, hafter, hasleep,
    hnone, hcleared⟩ := hw.run hc hmode hlater hfew
  · rw [Nat.zero_add] at hasleep
    refine .inl ⟨hasleep.asleep, hnone, hasleep.bounded, fun hlast ↦ ⟨hasleep.last hlast, ?_⟩⟩
    intro move u hstep hpeace hends
    rw [hlast] at hasleep
    exact (hasleep.due hfinal hmode hstep hpeace hends).mem_returned hasleep.asleep hmode
  · rw [Nat.zero_add] at hasleep
    exact .inr ⟨before, move, after, u, v, hsplit, hbefore, hstep, hafter, hasleep.asleep, hnone,
      hasleep.bounded, hcleared.ends, hcleared.returned⟩

theorem overtaken_within_quota_of_one :
    ∃ moves s reader later t,
      Situation.Run Peaceful (Situation.fresh (TicketLock.ofQuotas { write := 1 }).1) moves s ∧
      reader ∈ s.calls.sleepers ∧ Situation.Run Peaceful s later t ∧ writeGrants later = 1 ∧
      ∃ before move after, later = before ++ move :: after ∧ writeGrants before ≤ 1 ∧
        (∀ r ∈ returns before, r.mode = .write) ∧ reader.granted ∈ move.report.returned := by
  -- A reader sleeps behind a sleeping writer; the reader inside overtakes both as a writer.
  obtain ⟨moves, s, reader, later, t, hrun, hgrants, hmem, hmode, hlater, hlaterGrants, hread⟩ :
      ∃ moves s reader later t,
        Situation.Run Peaceful (Situation.fresh (TicketLock.ofQuotas { write := 1 }).1) moves s ∧
        writeGrants (moves ++ later) = 1 ∧ reader ∈ s.calls.sleepers ∧ reader.mode = .read ∧
        Situation.Run Peaceful s later t ∧ writeGrants later = 1 ∧ t.calls.sleeping .read = 0 :=
    ⟨_, _, ⟨.call "second", .behindWriters, 0⟩, _, _,
      .cons (.intro (.request (.tryLock .read)) (.refl _) rfl) ⟨rfl, by decide, by decide⟩ <|
      .cons (.intro (.lock .write "first") (.refl _) rfl) ⟨rfl, by decide, by decide⟩ <|
      .cons (.intro (.lock .read "second") (.refl _) rfl) ⟨rfl, by decide, by decide⟩ <|
      .nil _, rfl, by decide, rfl,
      .cons (.intro (.request .upgrade) (.refl _) rfl) ⟨rfl, by decide, by decide⟩ <|
      .cons (.intro (.request .downgrade) (.refl _) rfl) ⟨rfl, by decide, by decide⟩ <|
      .nil _, rfl, rfl⟩
  refine ⟨moves, s, reader, later, t, hrun, hmem, hlater, hlaterGrants, ?_⟩
  obtain ⟨hasleep, -⟩ |
      ⟨before, move, after, u, v, hsplit, -, -, -, hasleep, hnone, hle, -, hback⟩ :=
    overtaken_within_quota { write := 1 } hrun hmem hmode hlater (by rw [hgrants]; decide)
  · exact absurd hread (Nat.ne_of_gt (sleeping_read_pos hasleep hmode))
  · exact ⟨before, move, after, hsplit, hle, hnone, hback.mem_iff.2
      (List.mem_map_of_mem (List.mem_filter.2 ⟨hasleep, beq_iff_eq.2 hmode⟩))⟩

end SyncKit.TicketLock
