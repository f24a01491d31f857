import SyncKit.Proofs.Ticket.Serving

namespace SyncKit.TicketLock

variable {κ : Type} {h : Holds} {c : Contended TicketLock Wait κ}

theorem enter_read_of_queued (hb : Balanced h c) (hm : Modest h c)
    (hq : 0 < h.writes + c.sleeping .write) :
    ∃ n notes, n.toNat = c.lock.readersWaiting.toNat + 1 ∧
      c.lock.enter .read =
        { result := .ok (.asleep .behindWriters)
          lock := { c.lock with readersWaiting := n }
          notes } := by
  have hle := c.sleeping_le .read
  have hsleepers := hm.sleepers
  have hinc := Checked.increment_of_lt (n := c.lock.readersWaiting) (by rw [hb.waiting]; omega)
  refine ⟨_, [.trace "Reader waiting behind queued writers"], Checked.toNat_of_increment hinc, ?_⟩
  rw [enter, hb.queued_eq hm.sleepers, decide_eq_true hq, if_pos rfl, sleepReader, hinc]

theorem enter_write_of_busy (hb : Balanced h c) (hm : Modest h c) (hbusy : c.lock.word ≠ 0) :
    ∃ wait notes, wait.ticket? = some c.lock.requests ∧
      wait.Fits (c.lock.completions + Int32.ofNat h.writes) ∧
      c.lock.enter .write =
        { result := .ok (.asleep wait)
          lock := { c.lock with requests := c.lock.requests + 1 }
          notes } := by
  have hbusy' : { c.lock with requests := c.lock.requests + 1 }.word ≠ 0 := hbusy
  by_cases hfirst : c.lock.completions = c.lock.requests
  · have hqueued := hb.queued_eq hm.sleepers
    rw [queued, hfirst, bne_self_eq_false] at hqueued
    have hzero : h.writes = 0 := by
      have := of_decide_eq_false hqueued.symm
      omega
    refine ⟨.drain c.lock.requests, [.trace "Writer waiting for readers to drain"], rfl, ?_, ?_⟩
    · rw [hzero, ← hfirst]
      exact (Int32.add_zero _).symm
    · rw [enter, awaitTurn, if_pos hfirst, awaitDrain, if_neg hbusy']
  · refine ⟨.turn c.lock.requests, [.trace "Writer waiting for its turn"], rfl, trivial, ?_⟩
    rw [enter, awaitTurn, if_neg hfirst]

namespace Sound

theorem callRead (hs : Sound h c) (caller : κ) :
    let out := c.call caller .read
    out.returned = [] ∧
      (out.reply = .asleep ∧ Balanced h out.after ∧ Awake h out.after ∨
        out.reply = .done ∧ Balanced (h.take .read) out.after ∧
          Awake (h.take .read) out.after) := by
  have hb := hs.balanced
  by_cases hq : 0 < h.writes + c.sleeping .write
  · obtain ⟨n, notes, hn, henter⟩ := enter_read_of_queued hb hs.modest hq
    have hcall := Contended.call_of_refused (c := c) (m := .read) caller
      (tryRead_of_queued hb hs.modest hq) henter
    rw [hcall]
    refine ⟨rfl, .inl ⟨rfl, hb.joinReader rfl hb.spins hn, fun hpos ↦ ?_, fun _ ↦ ?_⟩⟩
    · rw [Contended.sleeping, countP_concat] at hpos
      exact hs.awake.writers hpos
    · rw [Contended.sleeping, countP_concat]
      exact hq
  · have hq : h.writes + c.sleeping .write = 0 := Nat.eq_zero_of_not_pos hq
    obtain ⟨hbal, hawake⟩ := hs.takeRead hq
    obtain ⟨spins, hspins, hcall⟩ := Contended.call_of_won (c := c) (m := .read) caller hb.spins
      (tryRead_of_free hb hs.modest hq)
    rw [hcall]
    exact ⟨rfl, .inr ⟨rfl, hbal.withSpins hspins, hawake.writers, hawake.readers⟩⟩

theorem callWrite (hs : Sound h c) (caller : κ) :
    let out := c.call caller .write
    out.returned = [] ∧
      (out.reply = .asleep ∧ Balanced h out.after ∧ Awake h out.after ∨
        out.reply = .done ∧ Balanced (h.take .write) out.after ∧
          Awake (h.take .write) out.after) := by
  have hb := hs.balanced
  by_cases hzero : c.lock.word = 0
  · obtain ⟨hr, hw⟩ := (word_eq_zero_iff hb hs.modest).1 hzero
    obtain ⟨hbal, hawake⟩ := hs.takeWrite hw
    have htake : h.take .write = ⟨0, 1⟩ := by rw [Holds.take, hr, hw]
    have htry : RawLock.request (.tryLock .write) c.lock =
        Step.done (F := Fault) .done c.lock.jumpQueue := if_pos hzero
    obtain ⟨spins, hspins, hcall⟩ := Contended.call_of_won (c := c) caller hb.spins htry
    rw [hcall, htake]
    exact ⟨rfl, .inr ⟨rfl, hbal.withSpins hspins, hawake.writers, hawake.readers⟩⟩
  · obtain ⟨wait, notes, hticket, hfits, henter⟩ := enter_write_of_busy hb hs.modest hzero
    have hcall := Contended.call_of_refused (c := c) (m := .write) caller (if_neg hzero) henter
    rw [hcall]
    have hmode : Sleeper.mode ⟨caller, wait, RawLock.spins c.lock⟩ = .write :=
      (mode_eq_write_iff _).2 (by rw [hticket]; rfl)
    refine ⟨rfl, .inl ⟨rfl, hb.joinWriter hticket hfits hb.spins, fun _ ↦ ?_, fun _ ↦ ?_⟩⟩
    · have hne := mt (word_eq_zero_iff hb hs.modest).2 hzero
      rw [Holds.total]
      omega
    · rw [Contended.sleeping, countP_concat, hmode, if_pos rfl]
      omega

end Sound

end SyncKit.TicketLock
