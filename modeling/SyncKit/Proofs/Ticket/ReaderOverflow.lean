import SyncKit.Proofs.Ticket.ReaderCount

namespace SyncKit.TicketLock

namespace Wraps

variable {h : Holds} {n : Nat} {l : TicketLock}

theorem toInt_word (hw : Wraps h n l) :
    l.word.toInt = ((2 * (h.reads + n) + h.writes : Nat) : Int).bmod (2 ^ 32) := by
  rw [hw.word]
  exact Int32.toInt_ofNat'

theorem word_neg_iff (hw : Wraps h n l) : l.word < 0 ↔ 2 ^ 30 ≤ (h.reads + n) % 2 ^ 31 := by
  have hle := hw.alone
  have hzero : (0 : Int32).toInt = 0 := rfl
  rw [Int32.lt_iff_toInt_lt, hzero, hw.toInt_word, Int.bmod_def]
  split <;> omega

theorem word_eq_zero_iff (hw : Wraps h n l) :
    l.word = 0 ↔ h.writes = 0 ∧ 2 ^ 31 ∣ h.reads + n := by
  have hle := hw.alone
  have hzero : (0 : Int32).toInt = 0 := rfl
  rw [← Int32.toInt_inj, hzero, hw.toInt_word, Int.bmod_def]
  split <;> omega

end Wraps

section Boundary

variable {l : TicketLock}

/-- The blocking path looks at the word as it was before the reader was counted. -/
theorem claimRead_overflows_iff :
    l.claimRead.result = .error .readersOverflowed ↔ l.word < 0 := by
  have hslept (wait : Wait) (note : String) (l : TicketLock) :
      (l.sleepReader wait note).result ≠ .error .readersOverflowed := by
    unfold sleepReader
    split <;> nofun
  unfold claimRead
  dsimp only
  split
  · next hneg => exact iff_of_true rfl hneg
  · next hneg =>
    refine iff_of_false ?_ hneg
    unfold awaitWriter
    split
    · exact hslept _ _ _
    · nofun

theorem tryWrite_done_iff : (l.request (.tryLock .write)).result = .ok .done ↔ l.word = 0 := by
  refine ⟨fun hd ↦ (tryWrite_of_done hd).1, fun hzero ↦ ?_⟩
  rw [request, tryWrite, if_pos hzero]
  rfl

end Boundary

def crowd (readers : Nat) : Situation TicketLock Wait where
  guarded.calls.lock := { (TicketLock.ofQuotas {}).1 with word := Int32.ofNat (2 * readers) }
  holds := ⟨readers, 0⟩

theorem crowd_grows (readers : Nat) : ∃ moves,
    Situation.Run Honest (crowd readers) moves (crowd (readers + 1)) ∧
      moves.map (·.op) = [.request (.tryLock .read)] := by
  have hword : (crowd readers).calls.lock.word = Int32.ofNat (2 * readers + 0) := rfl
  have hnobody : (crowd readers).calls.lock.writerInside = false :=
    writerInside_of_word hword (Nat.zero_le 1)
  have htry :
      (crowd readers).calls.lock.tryRead = .done .done (crowd (readers + 1)).calls.lock := by
    have hnext : (crowd readers).calls.lock.word + readerUnit = Int32.ofNat (2 * (readers + 1)) :=
      ofNat_add_readerUnit _
    simp only [tryRead, hnobody, hnext]
    rfl
  exact ⟨_, .cons (.of_request _ (.tryLock .read) (Contended.request_of_done htry))
    ⟨rfl, fun _ _ ↦ .inl rfl⟩ (.nil _), rfl⟩

theorem crowd_run (first more : Nat) : ∃ moves,
    Situation.Run Honest (crowd first) moves (crowd (first + more)) ∧
      moves.map (·.op) = (List.replicate more [.request (.tryLock .read)]).flatten :=
  Situation.Run.rounds (S := fun i ↦ crowd (first + i)) fun _ _ ↦ crowd_grows _

variable {s : Situation TicketLock Wait} {moves : List (Situation.Move TicketLock Wait Fault)}

/-- The word counts readers modulo 2^31 and is negative for the upper half of them. A try for
reading does not look; the blocking path looks at the readers that came before and so turns them
away from one past 2^30 on. Where the count has come round to zero, a writer comes in. -/
theorem readers_wrap (q : Quotas)
    (hrun : Situation.Run Honest (Situation.fresh (TicketLock.ofQuotas q).1) moves s) :
    let l := s.calls.lock
    let n := s.holds.reads + claims s.calls.sleepers
    let w := s.holds.writes
    w ≤ 1 ∧ l.word.toInt = (2 * n + w : Int).bmod (2 ^ 32) ∧
      (l.word < 0 ↔ 2 ^ 30 ≤ n % 2 ^ 31) ∧
      (∀ m f, (l.request (.tryLock m)).result ≠ .error f) ∧
      (l.claimRead.result = .error .readersOverflowed ↔ 2 ^ 30 ≤ n % 2 ^ 31) ∧
      ((l.request (.tryLock .write)).result = .ok .done ↔ w = 0 ∧ 2 ^ 31 ∣ n) := by
  have hw : Wraps s.holds (claims s.calls.sleepers) s.calls.lock :=
    CountsReaders.run hrun (countsReaders_fresh q)
  refine ⟨hw.alone, hw.toInt_word, hw.word_neg_iff, fun m f herror ↦ ?_, ?_, ?_⟩
  · obtain hrefused | ⟨l', hwon⟩ := tryLock_cases m s.calls.lock
    · rw [hrefused] at herror
      cases herror
    · rw [hwon] at herror
      cases herror
  · exact claimRead_overflows_iff.trans hw.word_neg_iff
  · exact tryWrite_done_iff.trans hw.word_eq_zero_iff

theorem readers_wrap_of_many :
    ∃ moves s, Situation.Run Honest (Situation.fresh (TicketLock.ofQuotas {}).1) moves s ∧
      s.holds = ⟨2 ^ 30, 0⟩ ∧ s.calls.lock.word < 0 ∧
      s.calls.lock.claimRead.result = .error .readersOverflowed ∧
      (s.calls.lock.request (.tryLock .write)).result ≠ .ok .done := by
  obtain ⟨moves, hrun, -⟩ := crowd_run 0 (2 ^ 30)
  rw [Nat.zero_add] at hrun
  obtain ⟨-, -, hneg, -, hclaim, hwrite⟩ := readers_wrap {} hrun
  have hhalf : 2 ^ 30 ≤ (2 ^ 30 + 0) % 2 ^ 31 := by decide
  refine ⟨moves, crowd (2 ^ 30), hrun, rfl, hneg.2 hhalf, hclaim.2 hhalf, fun hdone ↦ ?_⟩
  have hmany : 2 ^ 31 ∣ 2 ^ 30 + 0 := (hwrite.1 hdone).2
  revert hmany
  decide

/-- 2^30 tries for reading make the word negative, and 2^31 let a writer in among the readers. -/
theorem writer_joins_crowd :
    ∃ moves half later full,
      Situation.Run Honest (Situation.fresh (TicketLock.ofQuotas {}).1) moves half ∧
        moves.map (·.op) = (List.replicate (2 ^ 30) [.request (.tryLock .read)]).flatten ∧
        half.holds = ⟨2 ^ 30, 0⟩ ∧ half.calls.lock.word.toInt = -2 ^ 31 ∧
        Situation.Run Honest half later full ∧
        later.map (·.op) = (List.replicate (2 ^ 30) [.request (.tryLock .read)]).flatten ∧
        full.holds = ⟨2 ^ 31, 0⟩ ∧
        ∃ grant both, Situation.Step full grant both ∧
          grant.op = .request (.tryLock .write) ∧ grant.report.answer = .reply .done ∧
          both.holds = ⟨2 ^ 31, 1⟩ := by
  obtain ⟨moves, hrun, hops⟩ := crowd_run 0 (2 ^ 30)
  obtain ⟨later, hrun', hops'⟩ := crowd_run (2 ^ 30) (2 ^ 30)
  rw [Nat.zero_add] at hrun
  have hwrite : (crowd (2 ^ 30 + 2 ^ 30)).calls.lock.tryWrite =
      .done .done (crowd (2 ^ 30 + 2 ^ 30)).calls.lock.jumpQueue := if_pos (by decide)
  exact ⟨moves, crowd (2 ^ 30), later, crowd (2 ^ 30 + 2 ^ 30), hrun, hops, rfl, by decide, hrun',
    hops', rfl, _, _, .of_request _ (.tryLock .write) (Contended.request_of_done hwrite), rfl, rfl,
    rfl⟩

end SyncKit.TicketLock
