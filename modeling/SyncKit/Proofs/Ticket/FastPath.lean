import SyncKit.Proofs.Ticket.Peace

namespace SyncKit.TicketLock

/-- Two locks held and waited for alike. They may differ in the tickets, as long as equally many are
out, and in the count of writes. -/
structure HeldAlike (l l' : TicketLock) : Prop where
  word : l.word = l'.word
  waiting : l.readersWaiting = l'.readersWaiting
  queue : l.requests - l.completions = l'.requests - l'.completions

section Paths

variable {κ : Type} {h : Holds} {c : Contended TicketLock Wait κ}

theorem enter_read_of_free (hb : Balanced h c) (hm : Modest h c)
    (hq : h.writes + c.sleeping .write = 0) :
    c.lock.enter .read = .done .acquired
      { c.lock with word := Int32.ofNat (2 * (h.reads + 1)), granted := 0 } := by
  have hw : h.writes = 0 := by omega
  have hword : c.lock.word = Int32.ofNat (2 * h.reads) := by rw [hb.word, hw]; rfl
  rw [enter, hb.queued_eq hm.sleepers, hq]
  exact claimRead_of_free hword hm.reads

theorem enter_write_of_free (hs : Sound h c) (hzero : c.lock.word = 0) :
    c.lock.enter .write = .done .acquired
      { c.lock with
        word := writerBit
        requests := c.lock.requests + 1
        granted := c.lock.granted + 1 } := by
  obtain ⟨hr, hw⟩ := (word_eq_zero_iff hs.balanced hs.modest).1 hzero
  have hnone : c.sleeping .write = 0 := by
    refine Nat.eq_zero_of_not_pos fun hpos ↦ ?_
    have htotal := hs.awake.writers hpos
    rw [Holds.total] at htotal
    omega
  have hfirst : c.lock.completions = c.lock.requests := by
    rw [hs.balanced.requests, hw, hnone]
    exact (Int32.add_zero _).symm
  have hzero' : { c.lock with requests := c.lock.requests + 1 }.word = 0 := hzero
  rw [enter, awaitTurn, if_pos hfirst, awaitDrain, if_pos hzero']

/-- Where the fast path wins, the blocking path gets the lock without sleeping, and leaves it in the
same hands. A reader is accounted for only on the blocking path. -/
theorem Sound.paths_won (hs : Sound h c) {m : Mode}
    (hwon : (RawLock.request (F := Fault) (.tryLock m) c.lock).result = .ok .done) :
    ∃ fast slow, RawLock.request (.tryLock m) c.lock = Step.done (F := Fault) .done fast ∧
      c.lock.enter m = .done .acquired slow ∧ HeldAlike slow fast ∧
      fast.granted = (if m = .write then c.lock.granted + 1 else c.lock.granted) ∧
      slow.granted = (if m = .write then c.lock.granted + 1 else 0) := by
  cases m with
  | read =>
    by_cases hq : 0 < h.writes + c.sleeping .write
    · have hlost : RawLock.request (.tryLock .read) c.lock =
          Step.done (F := Fault) .wouldBlock c.lock := tryRead_of_queued hs.balanced hs.modest hq
      rw [hlost] at hwon
      cases hwon
    · have hq : h.writes + c.sleeping .write = 0 := Nat.eq_zero_of_not_pos hq
      exact ⟨_, _, tryRead_of_free hs.balanced hs.modest hq,
        enter_read_of_free hs.balanced hs.modest hq, ⟨rfl, rfl, rfl⟩, rfl, rfl⟩
  | write =>
    by_cases hzero : c.lock.word = 0
    · refine ⟨_, _, if_pos hzero, enter_write_of_free hs hzero, ⟨rfl, rfl, ?_⟩, rfl, rfl⟩
      change c.lock.requests + 1 - c.lock.completions = c.lock.requests - (c.lock.completions - 1)
      grind
    · have hlost : RawLock.request (.tryLock .write) c.lock =
          Step.done (F := Fault) .wouldBlock c.lock := if_neg hzero
      rw [hlost] at hwon
      cases hwon

end Paths

section Moves

variable {s : Situation TicketLock Wait} {moves : List (Situation.Move TicketLock Wait Fault)}

/-- A call that could get the lock at once gets it on the blocking path as well, with the same word,
the same readers waiting and as many tickets out. The paths count writes alike but for a reader:
only the blocking path starts the count again. A call that spins takes the fast path. -/
theorem paths_agree (q : Quotas)
    (hrun : Situation.Run Peaceful (Situation.fresh (TicketLock.ofQuotas q).1) moves s)
    (caller : Caller) (m : Mode)
    (hwon : (RawLock.request (F := Fault) (.tryLock m) s.calls.lock).result = .ok .done) :
    let l := s.calls.lock
    let fast := (RawLock.request (F := Fault) (.tryLock m) l).lock
    let blocking := l.enter m
    let call := s.calls.call (F := Fault) caller m
    blocking = .done .acquired blocking.lock ∧
      blocking.lock.word = fast.word ∧ blocking.lock.readersWaiting = fast.readersWaiting ∧
      blocking.lock.requests - blocking.lock.completions = fast.requests - fast.completions ∧
      (m = .write → blocking.lock.granted = fast.granted) ∧
      (m = .read → blocking.lock.granted = 0 ∧ fast.granted = l.granted) ∧
      call.reply = .done ∧ call.returned = [] ∧
      ∃ spins, call.after = ⟨{ fast with spins }, s.calls.sleepers⟩ := by
  have hs := Sound.run hrun (sound_fresh q)
  obtain ⟨fast, slow, hfast, hslow, halike, hcount, hcount'⟩ := hs.paths_won hwon
  obtain ⟨spins, -, hcall⟩ := Contended.call_of_won caller hs.balanced.spins hfast
  dsimp only
  rw [hfast, hslow, hcall]
  refine ⟨rfl, halike.word, halike.waiting, halike.queue, ?_, ?_, rfl, rfl, spins, rfl⟩
  · rintro rfl
    exact hcount'.trans hcount.symm
  · rintro rfl
    exact ⟨hcount', hcount⟩

theorem paths_agree_after_write :
    ∃ moves s, Situation.Run Peaceful (Situation.fresh (TicketLock.ofQuotas {}).1) moves s ∧
      s.calls.lock.granted = 1 ∧ (s.calls.lock.enter .write).lock.granted = 2 ∧
      (s.calls.call (F := Fault) (.call "next") .write).after.lock.granted = 2 := by
  obtain ⟨moves, s, hrun, hgranted, hwon, hcount⟩ :
      ∃ moves s, Situation.Run Peaceful (Situation.fresh (TicketLock.ofQuotas {}).1) moves s ∧
        s.calls.lock.granted = 1 ∧
        (RawLock.request (F := Fault) (.tryLock .write) s.calls.lock).result = .ok .done ∧
        (RawLock.request (F := Fault) (.tryLock .write) s.calls.lock).lock.granted = 2 :=
    ⟨_, _,
      .cons (.intro (.request (.tryLock .write)) (.refl _) rfl) ⟨rfl, by decide, by decide⟩ <|
      .cons (.intro (.request (.unlock .write)) (.refl _) rfl) ⟨rfl, by decide, by decide⟩ <|
      .nil _, rfl, rfl, rfl⟩
  obtain ⟨-, -, -, -, hwrite, -, -, -, spins, hafter⟩ :=
    paths_agree {} hrun (.call "next") .write hwon
  refine ⟨moves, s, hrun, hgranted, (hwrite rfl).trans hcount, ?_⟩
  rw [hafter]
  exact hcount

/-- After a write a reader that spins comes in at once, and the write stays counted. On the blocking
path it starts the count again. -/
theorem fast_reader_uncounted :
    ∃ moves s, Situation.Run Peaceful (Situation.fresh (TicketLock.ofQuotas {}).1) moves s ∧
      moves.length = 2 ∧
      (RawLock.request (F := Fault) (.tryLock .read) s.calls.lock).result = .ok .done ∧
      (RawLock.request (F := Fault) (.tryLock .read) s.calls.lock).lock.granted = 1 ∧
      (s.calls.lock.enter .read).result = .ok .acquired ∧
      (s.calls.lock.enter .read).lock.granted = 0 ∧
      (s.calls.call (F := Fault) (.call "next") .read).after.lock.granted = 1 :=
  ⟨_, _,
    .cons (.intro (.request (.tryLock .write)) (.refl _) rfl) ⟨rfl, by decide, by decide⟩ <|
    .cons (.intro (.request (.unlock .write)) (.refl _) rfl) ⟨rfl, by decide, by decide⟩ <|
    .nil _, rfl, rfl, rfl, rfl, rfl, rfl⟩

end Moves

end SyncKit.TicketLock
