import SyncKit.Lock.Ticket

namespace SyncKit.TicketLock

/-- What the code of the lock leaves alone once a call has drawn its ticket. -/
structure Untouched (l l' : TicketLock) : Prop where
  requests : l'.requests = l.requests
  spins : l'.spins = l.spins

theorem Untouched.trans {l l' l'' : TicketLock} (h : Untouched l l') (h' : Untouched l' l'') :
    Untouched l l'' :=
  ⟨h'.requests.trans h.requests, h'.spins.trans h.spins⟩

section Blocking

theorem untouched_sleepReader (wait : Wait) (note : String) (l : TicketLock) :
    Untouched l (l.sleepReader wait note).lock := by
  unfold sleepReader
  cases Checked.increment l.readersWaiting <;> exact ⟨rfl, rfl⟩

theorem untouched_awaitWriter (l : TicketLock) : Untouched l l.awaitWriter.lock := by
  unfold awaitWriter
  split
  · exact untouched_sleepReader _ _ l
  · exact ⟨rfl, rfl⟩

theorem untouched_claimRead (l : TicketLock) : Untouched l l.claimRead.lock := by
  have hclaimed : Untouched l { l with word := l.word + readerUnit } := ⟨rfl, rfl⟩
  simp only [claimRead]
  split
  · exact hclaimed
  · exact hclaimed.trans (untouched_awaitWriter _)

theorem untouched_awaitDrain (ticket : Int32) (l : TicketLock) :
    Untouched l (l.awaitDrain ticket).lock := by
  unfold awaitDrain
  split <;> exact ⟨rfl, rfl⟩

theorem untouched_awaitTurn (ticket : Int32) (l : TicketLock) :
    Untouched l (l.awaitTurn ticket).lock := by
  unfold awaitTurn
  split
  · exact untouched_awaitDrain ticket l
  · exact ⟨rfl, rfl⟩

theorem untouched_wakeReader {next : TicketLock → Step TicketLock Fault (Turn Wait)}
    (hnext : ∀ l, Untouched l (next l).lock) (l : TicketLock) :
    Untouched l (l.wakeReader next).lock := by
  unfold wakeReader
  cases Checked.decrement l.readersWaiting with
  | ok n =>
    have hwoken : Untouched l { l with readersWaiting := n } := ⟨rfl, rfl⟩
    exact hwoken.trans (hnext _)
  | error o => exact ⟨rfl, rfl⟩

theorem untouched_resume (wait : Wait) (l : TicketLock) : Untouched l (resume wait l).lock := by
  cases wait with
  | behindWriters => exact untouched_wakeReader untouched_claimRead l
  | writerInside => exact untouched_wakeReader untouched_awaitWriter l
  | turn ticket => exact untouched_awaitTurn ticket l
  | drain ticket => exact untouched_awaitDrain ticket l

theorem untouched_enter_read (l : TicketLock) : Untouched l (enter .read l).lock := by
  simp only [enter]
  split
  · exact untouched_sleepReader _ _ l
  · exact untouched_claimRead l

end Blocking

theorem untouched_request (r : Request) (l : TicketLock) : Untouched l (request r l).lock := by
  match r with
  | .tryLock .read =>
    simp only [request, tryRead, withdraw]
    split
    · exact ⟨rfl, rfl⟩
    · split <;> exact ⟨rfl, rfl⟩
  | .tryLock .write =>
    simp only [request, tryWrite]
    split <;> exact ⟨rfl, rfl⟩
  | .unlock .read =>
    simp only [request, unlockRead, withdraw]
    split <;> exact ⟨rfl, rfl⟩
  | .unlock .write =>
    simp only [request, unlockWrite]
    split
    · split <;> exact ⟨rfl, rfl⟩
    · exact ⟨rfl, rfl⟩
  | .upgrade =>
    simp only [request, upgrade]
    split
    · exact ⟨rfl, rfl⟩
    · split <;> exact ⟨rfl, rfl⟩
  | .downgrade =>
    simp only [request, downgrade]
    split <;> exact ⟨rfl, rfl⟩

end SyncKit.TicketLock
