import SyncKit.Proofs.Lock.Admission
import SyncKit.Proofs.Ticket.Passage

namespace SyncKit.TicketLock

section Turned

variable {κ : Type} {h : Holds} {c : Contended TicketLock Wait κ}

/-- No reader comes in by itself while a writer sleeps, whoever holds the lock. -/
theorem tryRead_of_waiting (hs : Sound h c) (hasleep : 0 < c.sleeping .write) :
    c.request (F := Fault) (.tryLock .read) = { reply := .wouldBlock, after := c } := by
  have hqueued : 0 < h.writes + c.sleeping .write := Nat.add_pos_right _ hasleep
  have hstep := tryRead_of_queued hs.balanced hs.modest hqueued
  rw [Contended.request_of_done (r := .tryLock .read) hstep]
  rfl

theorem callRead_of_waiting (hs : Sound h c) (hasleep : 0 < c.sleeping .write) (caller : κ) :
    let out := c.call (F := Fault) caller .read
    out.reply = .asleep ∧ out.returned = [] ∧
      out.after.sleepers = c.sleepers ++ [⟨caller, .behindWriters, c.lock.spins⟩] := by
  have hqueued : 0 < h.writes + c.sleeping .write := Nat.add_pos_right _ hasleep
  obtain ⟨n, notes, -, henter⟩ := enter_read_of_queued hs.balanced hs.modest hqueued
  rw [Contended.call_of_refused (m := .read) caller
    (tryRead_of_queued hs.balanced hs.modest hqueued) henter]
  exact ⟨rfl, rfl, rfl⟩

end Turned

section Steps

variable {s t : Situation TicketLock Wait} {move : Situation.Move TicketLock Wait Fault}
  {moves : List (Situation.Move TicketLock Wait Fault)}

theorem answer_of_tryRead (hs : Sound s.holds s.calls) (hasleep : 0 < s.calls.sleeping .write)
    (hstep : Situation.Step s move t)
    (hd : s.guarded.demand? move.op = some (.request (.tryLock .read))) :
    move.report.answer = .reply .wouldBlock ∧ t.holds = s.holds := by
  obtain ⟨sleepers, hp, out, hout, hanswer, -, hholds, -⟩ := hstep.attends hd rfl
  have hasleep' : 0 < Contended.sleeping { s.calls with sleepers } .write :=
    Nat.lt_of_lt_of_eq hasleep (hp.countP_eq _).symm
  rw [Contended.serve, tryRead_of_waiting (hs.perm hp) hasleep'] at hout
  rw [hanswer, hholds, hout]
  exact ⟨rfl, rfl⟩

theorem answer_of_callRead (hs : Sound s.holds s.calls) (hasleep : 0 < s.calls.sleeping .write)
    (hstep : Situation.Step s move t) {caller : Caller}
    (hd : s.guarded.demand? move.op = some (.call caller .read)) :
    move.report.answer = .reply .asleep ∧ t.holds = s.holds ∧
      t.calls.sleepers.Perm
        (⟨caller, .behindWriters, s.calls.lock.spins⟩ :: s.calls.sleepers) := by
  obtain ⟨sleepers, hp, out, rfl, hanswer, hcalls, hholds, -⟩ := hstep.attends hd rfl
  have hasleep' : 0 < Contended.sleeping { s.calls with sleepers } .write :=
    Nat.lt_of_lt_of_eq hasleep (hp.countP_eq _).symm
  obtain ⟨hreply, hreturned, hsleepers⟩ := callRead_of_waiting (hs.perm hp) hasleep' caller
  refine ⟨hanswer.trans (congrArg _ hreply), ?_, ?_⟩
  · rw [hholds]
    exact Outcome.settle_of_asleep hreturned hreply s.holds
  · rw [hcalls, Contended.serve, hsleepers]
    exact (List.perm_append_singleton _ _).trans (hp.cons _)

/-- Sleeping readers come back from the end of a write, and from nothing else. -/
theorem ends_of_reader (hs : Sound s.holds s.calls) (hstep : Situation.Step s move t)
    (hpeace : Peaceful s move t) {r : Returned Caller Fault} (hmem : r ∈ move.report.returned)
    (hread : r.mode = .read) : (Passage.ofMove s move t).EndsWrite := by
  rcases hs.step_regular hstep hpeace with hquiet | hwrote | hcleared
  · have hnone : move.report.returned = [] := hquiet.returned
    rw [hnone] at hmem
    cases hmem
  · have hwrite := hwrote.returned r hmem
    rw [hread] at hwrite
    cases hwrite
  · exact hcleared.ends

/-- While a writer sleeps, readers are turned away or sleep behind it, also when other readers hold
the lock, and those asleep come back only when a writer leaves or becomes a reader. -/
theorem writers_preferred (q : Quotas)
    (hrun : Situation.Run Peaceful (Situation.fresh (TicketLock.ofQuotas q).1) moves s)
    (hasleep : 0 < s.calls.sleeping .write) (hstep : Situation.Step s move t) :
    (s.guarded.demand? move.op = some (.request (.tryLock .read)) →
        move.report.answer = .reply .wouldBlock ∧ t.holds = s.holds) ∧
      (∀ caller, s.guarded.demand? move.op = some (.call caller .read) →
        move.report.answer = .reply .asleep ∧ t.holds = s.holds ∧
          t.calls.sleepers.Perm
            (⟨caller, .behindWriters, s.calls.lock.spins⟩ :: s.calls.sleepers)) ∧
      (Peaceful s move t → ∀ r ∈ move.report.returned, r.mode = .read →
        s.guarded.demand? move.op = some (.request (.unlock .write)) ∨
          s.guarded.demand? move.op = some (.request .downgrade)) := by
  have hs := Sound.run hrun (sound_fresh q)
  refine ⟨answer_of_tryRead hs hasleep hstep, ?_, ?_⟩
  · intro caller hd
    exact answer_of_callRead hs hasleep hstep hd
  · intro hpeace r hmem hread
    exact ends_of_reader hs hstep hpeace hmem hread

theorem writers_preferred_over_held :
    ∃ moves s refused t slept u,
      Situation.Run Peaceful (Situation.fresh (TicketLock.ofQuotas {}).1) moves s ∧
      s.holds = ⟨1, 0⟩ ∧ 0 < s.calls.sleeping .write ∧
      Situation.Step s refused t ∧ refused.report.answer = .reply .wouldBlock ∧
      Situation.Step s slept u ∧ slept.report.answer = .reply .asleep ∧ u.holds = ⟨1, 0⟩ := by
  -- A writer sleeps behind a reader, and another reader asks for the lock.
  obtain ⟨moves, s, refused, t, slept, u, hrun, hholds, hasleep, hstep, hd, hstep', hd'⟩ :
      ∃ moves s refused t slept u,
        Situation.Run Peaceful (Situation.fresh (TicketLock.ofQuotas {}).1) moves s ∧
        s.holds = ⟨1, 0⟩ ∧ 0 < s.calls.sleeping .write ∧ Situation.Step s refused t ∧
        s.guarded.demand? refused.op = some (.request (.tryLock .read)) ∧
        Situation.Step s slept u ∧
        s.guarded.demand? slept.op = some (.call (.call "reader") .read) :=
    ⟨_, _, _, _, _, _,
      .cons (.intro (.request (.tryLock .read)) (.refl _) rfl) ⟨rfl, by decide, by decide⟩ <|
      .cons (.intro (.lock .write "writer") (.refl _) rfl) ⟨rfl, by decide, by decide⟩ <|
      .nil _, rfl, by decide, .intro (.request (.tryLock .read)) (.refl _) rfl, rfl,
      .intro (.lock .read "reader") (.refl _) rfl, rfl⟩
  obtain ⟨hrefused, -⟩ := writers_preferred {} hrun hasleep hstep
  obtain ⟨-, hslept, -⟩ := writers_preferred {} hrun hasleep hstep'
  obtain ⟨hanswer, hkept, -⟩ := hslept _ hd'
  exact ⟨moves, s, refused, t, slept, u, hrun, hholds, hasleep, hstep, (hrefused hd).1, hstep',
    hanswer, hkept.trans hholds⟩

end Steps

end SyncKit.TicketLock
