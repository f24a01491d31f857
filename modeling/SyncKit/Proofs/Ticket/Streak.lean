import SyncKit.Proofs.Ticket.Passage

namespace SyncKit.TicketLock

section Streak

variable {L W F : Type}

/-- The writes in a row, once a move has been made. Readers end the row only when they come back
from sleep: those that find the lock free, at once or while they spin, do not. -/
def streakAfter (n : Nat) (move : Situation.Move L W F) : Nat :=
  if move.report.returned.any (·.mode == .read) then 0 else n + move.writeGrants

def streak (moves : List (Situation.Move L W F)) : Nat := moves.foldl streakAfter 0

end Streak

variable {s t : Situation TicketLock Wait} {move : Situation.Move TicketLock Wait Fault}
  {moves : List (Situation.Move TicketLock Wait Fault)} {quota : UInt32} {n : Nat}

structure Tracks (quota : UInt32) (n : Nat) (s : Situation TicketLock Wait) : Prop where
  sound : Sound s.holds s.calls
  quota : s.calls.lock.writeQuota = Int32.ofIntClamp quota.toNat
  granted : s.calls.lock.granted.toInt = (n : Int).bmod (2 ^ 32)

theorem tracks_fresh (q : Quotas) :
    Tracks q.effectiveWrite 0 (Situation.fresh (TicketLock.ofQuotas q).1) :=
  ⟨sound_fresh q, rfl, rfl⟩

theorem Tracks.step (ht : Tracks quota n s) (hstep : Situation.Step s move t)
    (hpeace : Peaceful s move t) : Tracks quota (streakAfter n move) t := by
  have hsound := ht.sound.step hstep hpeace
  obtain hquiet | hwrote | hcleared := ht.sound.step_regular hstep hpeace
  · have hgranted : t.calls.lock.granted = s.calls.lock.granted := hquiet.granted
    have hgrants : move.writeGrants = 0 := hquiet.grants
    have hreturned : move.report.returned = [] := hquiet.returned
    have hstreak : streakAfter n move = n := by
      simp [streakAfter, hreturned, hgrants]
    refine ⟨hsound, hquiet.quota.trans ht.quota, ?_⟩
    rw [hgranted, hstreak, ht.granted]
  · have hgranted : t.calls.lock.granted = s.calls.lock.granted + 1 := hwrote.granted
    have hgrants : move.writeGrants = 1 := hwrote.grants
    have hnone : move.report.returned.any (·.mode == .read) = false := by
      rw [List.any_eq_false]
      intro r hmem
      rw [hwrote.returned r hmem]
      decide
    have hstreak : streakAfter n move = n + 1 := by
      simp [streakAfter, hnone, hgrants]
    refine ⟨hsound, hwrote.quota.trans ht.quota, ?_⟩
    have hone : (1 : Int32).toInt = 1 := rfl
    rw [hgranted, hstreak, Int32.toInt_add, ht.granted, hone, Int.bmod_add_bmod]
    rfl
  · have hgranted : t.calls.lock.granted = 0 := hcleared.granted
    have hsome : move.report.returned.any (·.mode == .read) = true := by
      obtain ⟨reader, hmem, hmode⟩ := List.countP_pos_iff.1 hcleared.waited
      refine List.any_eq_true.2 ⟨reader.granted, hcleared.returned.mem_iff.2 ?_, hmode⟩
      exact List.mem_map_of_mem (List.mem_filter.2 ⟨hmem, hmode⟩)
    have hstreak : streakAfter n move = 0 := if_pos hsome
    refine ⟨hsound, hcleared.quota.trans ht.quota, ?_⟩
    rw [hgranted, hstreak]
    rfl

theorem Tracks.run (hrun : Situation.Run Peaceful s moves t) (ht : Tracks quota n s) :
    Tracks quota (moves.foldl streakAfter n) t := by
  induction hrun generalizing n with
  | nil => exact ht
  | cons hstep hpeace _ ih => exact ih (ht.step hstep hpeace)

/-- The count of writes in a row is right until there are 2^31 of them, and wraps then. While it is
negative the write quota is not spent, however many writes there have been. -/
theorem granted_eq_streak (q : Quotas)
    (hrun : Situation.Run Peaceful (Situation.fresh (TicketLock.ofQuotas q).1) moves s) :
    let l := s.calls.lock
    let n := streak moves
    l.granted.toInt = (n : Int).bmod (2 ^ 32) ∧
      (0 ≤ l.granted.toInt ↔ n % 2 ^ 32 < 2 ^ 31) ∧
      (n < 2 ^ 31 → (l.writeQuota ≤ l.granted ↔ min q.effectiveWrite.toNat (2 ^ 31 - 1) ≤ n)) ∧
      (2 ^ 31 ≤ n % 2 ^ 32 → ¬ l.writeQuota ≤ l.granted) := by
  intro l n
  have ht : Tracks q.effectiveWrite n s := (tracks_fresh q).run hrun
  have hgranted : l.granted.toInt = (n : Int).bmod (2 ^ 32) := ht.granted
  have hwrapped : l.granted.toInt =
      if n % 2 ^ 32 < 2 ^ 31 then ((n % 2 ^ 32 : Nat) : Int) else (n % 2 ^ 32 : Nat) - 2 ^ 32 := by
    rw [hgranted, Int.bmod_def]
    split <;> split <;> omega
  have hquota : l.writeQuota.toInt = min (q.effectiveWrite.toNat : Int) (2 ^ 31 - 1) :=
    (congrArg Int32.toInt ht.quota).trans (Word.toInt_ofIntClamp_natCast _)
  refine ⟨hgranted, ?_, ?_, ?_⟩
  · rw [hwrapped]
    split <;> omega
  · intro hn
    rw [Int32.le_iff_toInt_le, hquota, hwrapped, if_pos (by omega)]
    omega
  · intro hn
    rw [Int32.le_iff_toInt_le, hquota, hwrapped, if_neg (by omega)]
    omega

theorem granted_eq_streak_of_two :
    ∃ moves s, Situation.Run Peaceful (Situation.fresh (TicketLock.ofQuotas {}).1) moves s ∧
      streak moves = 2 ∧ s.calls.lock.granted.toInt = 2 := by
  -- A reader joins and leaves between the writes, and does not end the row.
  obtain ⟨moves, s, hrun, hstreak⟩ :
      ∃ moves s, Situation.Run Peaceful (Situation.fresh (TicketLock.ofQuotas {}).1) moves s ∧
        streak moves = 2 :=
    ⟨_, _,
      .cons (.of_request _ (.tryLock .write) rfl) ⟨rfl, by decide, by decide⟩ <|
      .cons (.of_request _ .downgrade rfl) ⟨rfl, by decide, by decide⟩ <|
      .cons (.of_request _ (.unlock .read) rfl) ⟨rfl, by decide, by decide⟩ <|
      .cons (.of_request _ (.tryLock .read) rfl) ⟨rfl, by decide, by decide⟩ <|
      .cons (.of_request _ .upgrade rfl) ⟨rfl, by decide, by decide⟩ <|
      .nil _, rfl⟩
  obtain ⟨hgranted, -⟩ := granted_eq_streak {} hrun
  rw [hstreak] at hgranted
  exact ⟨moves, s, hrun, hstreak, hgranted⟩

def idleAfter (granted : Int32) : Situation TicketLock Wait :=
  { guarded.calls.lock := { (TicketLock.ofQuotas {}).1 with granted } }

def loneWrite : List Guarded.Operation := [.request (.tryLock .write), .request (.unlock .write)]

theorem loneWrite_run (granted : Int32) :
    ∃ moves, Situation.Run Peaceful (idleAfter granted) moves (idleAfter (granted + 1)) ∧
      moves.map (·.op) = loneWrite := by
  let busy : TicketLock := (idleAfter granted).calls.lock.jumpQueue
  have htake : (idleAfter granted).calls.lock.tryWrite = .done .done busy := rfl
  have hleave : busy.unlockWrite = .done .done (idleAfter (granted + 1)).calls.lock := by
    have hinside : busy.writerInside = true := show (1 &&& 1 != (0 : Int32)) = true by decide
    have hnobody : decide (busy.readersWaiting > 0) = false := rfl
    have hword : busy.word - writerBit = 0 := show (1 - 1 : Int32) = 0 by decide
    have hserved : busy.completions + 1 = 0 := show (0 - 1 + 1 : Int32) = 0 by decide
    simp only [unlockWrite, hinside, hnobody, hword, hserved, Bool.and_false, Bool.false_eq_true,
      ↓reduceIte]
    rfl
  exact ⟨_, .cons (.of_request _ (.tryLock .write) (Contended.request_of_done htake))
      ⟨rfl, show 0 < 2 ^ 30 by decide, show 0 < 2 ^ 30 by decide⟩ <|
    .cons (.of_request _ (.unlock .write) (Contended.request_of_done hleave))
      ⟨rfl, show 0 < 2 ^ 30 by decide, show 0 < 2 ^ 30 by decide⟩ <| .nil _, rfl⟩

/-- 2^31 writes that meet nobody make the count negative, and with it the write quota void. -/
theorem granted_neg_after_writes :
    ∃ moves s, Situation.Run Peaceful (Situation.fresh (TicketLock.ofQuotas {}).1) moves s ∧
      moves.map (·.op) = (List.replicate (2 ^ 31) loneWrite).flatten ∧
      s.holds = {} ∧ s.calls.sleepers = [] ∧ s.calls.lock.granted.toInt < 0 ∧
      ¬ s.calls.lock.writeQuota ≤ s.calls.lock.granted := by
  have hnext (i : Nat) (_ : i < 2 ^ 31) : ∃ moves,
      Situation.Run Peaceful (idleAfter (Int32.ofNat i)) moves (idleAfter (Int32.ofNat (i + 1))) ∧
        moves.map (·.op) = loneWrite := by
    rw [Int32.ofNat_add]
    exact loneWrite_run _
  obtain ⟨moves, hrun, hops⟩ := Situation.Run.rounds hnext
  exact ⟨moves, _, hrun, hops, rfl, rfl, by decide, by decide⟩

end SyncKit.TicketLock
