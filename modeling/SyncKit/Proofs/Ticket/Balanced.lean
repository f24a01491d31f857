import SyncKit.Lock.Ticket
import SyncKit.Proofs.Lock.Waking
import SyncKit.Proofs.Word

namespace SyncKit.TicketLock

variable {κ : Type}

def Wait.ticket? : Wait → Option Int32
  | .turn ticket => some ticket
  | .drain ticket => some ticket
  | _ => none

/-- A reader always sleeps behind the writers, and only the writer whose turn is next can have come
as far as waiting for the readers to leave. -/
def Wait.Fits (next : Int32) : Wait → Prop
  | .behindWriters => True
  | .writerInside => False
  | .turn _ => True
  | .drain ticket => ticket = next

def tickets (sleepers : List (Sleeper κ Wait)) : List Int32 :=
  sleepers.filterMap (·.wait.ticket?)

def ticketsFrom (first : Int32) (n : Nat) : List Int32 :=
  (List.range n).map fun k ↦ first + Int32.ofNat k

/-- The fields of the lock account for the grants that are out and for the calls asleep. -/
structure Balanced (h : Holds) (c : Contended TicketLock Wait κ) : Prop where
  exclusive : h.writes = 0 ∨ h.writes = 1 ∧ h.reads = 0
  word : c.lock.word = Int32.ofNat (2 * h.reads + h.writes)
  waiting : c.lock.readersWaiting.toNat = c.sleeping .read
  requests : c.lock.requests = c.lock.completions + Int32.ofNat (h.writes + c.sleeping .write)
  line : (tickets c.sleepers).Perm
    (ticketsFrom (c.lock.completions + Int32.ofNat h.writes) (c.sleeping .write))
  fits : ∀ s ∈ c.sleepers, s.wait.Fits (c.lock.completions + Int32.ofNat h.writes)
  spins : Spin.Settled c.lock.spins
  estimates : ∀ s ∈ c.sleepers, Spin.Settled s.estimate

/-- Few enough grants and sleepers for the counters to tell their numbers apart. -/
structure Modest (h : Holds) (c : Contended TicketLock Wait κ) : Prop where
  reads : h.reads < 2 ^ 30
  sleepers : c.sleepers.length < 2 ^ 30

section Tickets

theorem ticketsFrom_succ (first : Int32) (n : Nat) :
    ticketsFrom first (n + 1) = first :: ticketsFrom (first + 1) n := by
  simp only [ticketsFrom, List.range_succ_eq_map, List.map_cons, List.map_map]
  congr 1
  · exact Int32.add_zero first
  · apply List.map_congr_left
    intro k _
    change first + Int32.ofNat (k + 1) = first + 1 + Int32.ofNat k
    rw [Int32.ofNat_add, Int32.add_assoc, Int32.add_comm (Int32.ofNat k)]
    rfl

theorem ticketsFrom_succ_last (first : Int32) (n : Nat) :
    ticketsFrom first (n + 1) = ticketsFrom first n ++ [first + Int32.ofNat n] := by
  simp only [ticketsFrom, List.range_succ, List.map_append, List.map_cons, List.map_nil]

theorem nodup_ticketsFrom (first : Int32) {n : Nat} (hn : n ≤ 2 ^ 32) :
    (ticketsFrom first n).Nodup := by
  refine List.pairwise_map.2 (List.nodup_range.imp_of_mem fun ha hb hne he ↦ hne ?_)
  rw [List.mem_range] at ha hb
  exact (Word.add_ofNat_inj first (by omega) (by omega)).1 he

@[simp] theorem tickets_append (xs ys : List (Sleeper κ Wait)) :
    tickets (xs ++ ys) = tickets xs ++ tickets ys := List.filterMap_append

theorem tickets_singleton (s : Sleeper κ Wait) : tickets [s] = s.wait.ticket?.toList := by
  rw [tickets, List.filterMap_cons]
  cases s.wait.ticket? <;> rfl

theorem mode_eq_write_iff (s : Sleeper κ Wait) : s.mode = .write ↔ s.wait.ticket?.isSome := by
  obtain ⟨caller, wait, estimate⟩ := s
  cases wait <;> simp [Sleeper.mode, Place.mode, Wait.ticket?]

theorem mode_of_ticket? {s : Sleeper κ Wait} {ticket : Int32} (h : s.wait.ticket? = some ticket) :
    s.mode = .write := (mode_eq_write_iff s).2 (by rw [h]; rfl)

theorem countP_concat (xs : List (Sleeper κ Wait)) (s : Sleeper κ Wait) (m : Mode) :
    (xs ++ [s]).countP (·.mode == m) = xs.countP (·.mode == m) + if s.mode = m then 1 else 0 := by
  rw [List.countP_append, List.countP_singleton]
  simp only [beq_iff_eq]

theorem map_ticket?_writers (sleepers : List (Sleeper κ Wait)) :
    (sleepers.filter (·.mode == .write)).map (·.wait.ticket?) = (tickets sleepers).map some := by
  induction sleepers with
  | nil => rfl
  | cons s sleepers ih =>
    obtain ⟨caller, wait, estimate⟩ := s
    cases wait with
    | behindWriters => exact ih
    | writerInside => exact ih
    | turn ticket => exact congrArg (some ticket :: ·) ih
    | drain ticket => exact congrArg (some ticket :: ·) ih

end Tickets

section Word

variable {l : TicketLock} {r w : Nat}

theorem writerInside_of_word (h : l.word = Int32.ofNat (2 * r + w)) (hw : w ≤ 1) :
    l.writerInside = decide (w = 1) := by
  have hm : (2 * r + w) % 2 = w := by omega
  rw [writerInside, h, writerBit, Word.ofNat_and_one, hm]
  have hw' : w = 0 ∨ w = 1 := by omega
  rcases hw' with rfl | rfl <;> rfl

theorem readersInside_of_word (h : l.word = Int32.ofNat (2 * r + w)) (hw : w ≤ 1)
    (hr : 2 * r + w < 2 ^ 32) : l.readersInside = decide (0 < r) := by
  rw [readersInside, h, writerBit, Bool.eq_iff_iff, bne_iff_ne, Ne, Word.ofNat_and_not_one hr,
    decide_eq_true_iff]
  omega

theorem ofNat_add_readerUnit (n : Nat) : Int32.ofNat n + readerUnit = Int32.ofNat (n + 2) :=
  (Int32.ofNat_add n 2).symm

theorem ofNat_sub_readerUnit {n : Nat} (h : 2 ≤ n) :
    Int32.ofNat n - readerUnit = Int32.ofNat (n - 2) := (Int32.ofNat_sub n 2 h).symm

end Word

namespace Balanced

variable {h : Holds} {c : Contended TicketLock Wait κ}

theorem writes_le (hb : Balanced h c) : h.writes ≤ 1 := by
  have := hb.exclusive
  omega

theorem reads_eq_zero (hb : Balanced h c) (hw : h.writes = 1) : h.reads = 0 := by
  have := hb.exclusive
  omega

theorem writes_eq_zero (hb : Balanced h c) (hr : 0 < h.reads) : h.writes = 0 := by
  have := hb.exclusive
  omega

theorem waiting_pos_iff (hb : Balanced h c) :
    c.lock.readersWaiting > 0 ↔ 0 < c.sleeping .read := by
  rw [gt_iff_lt, UInt32.lt_iff_toNat_lt, hb.waiting]
  rfl

theorem writerInside_eq (hb : Balanced h c) : c.lock.writerInside = decide (h.writes = 1) :=
  writerInside_of_word hb.word hb.writes_le

theorem readersInside_eq (hb : Balanced h c) (hr : h.reads < 2 ^ 30) :
    c.lock.readersInside = decide (0 < h.reads) := by
  have := hb.writes_le
  exact readersInside_of_word hb.word hb.writes_le (by omega)

theorem word_eq_iff (hb : Balanced h c) (hr : h.reads < 2 ^ 30) {n : Nat} (hn : n < 2 ^ 32) :
    c.lock.word = Int32.ofNat n ↔ 2 * h.reads + h.writes = n := by
  have := hb.writes_le
  rw [hb.word, Word.ofNat_inj (by omega) hn]

theorem queued_eq (hb : Balanced h c) (hs : c.sleepers.length < 2 ^ 30) :
    c.lock.queued = decide (0 < h.writes + c.sleeping .write) := by
  have hw := hb.writes_le
  have hl := c.sleeping_le .write
  rw [queued, hb.requests, Bool.eq_iff_iff, bne_iff_ne, Ne, Int32.add_eq_left, decide_eq_true_iff]
  change ¬ Int32.ofNat _ = Int32.ofNat 0 ↔ _
  rw [Word.ofNat_inj (by omega) (by omega)]
  omega

theorem perm (hb : Balanced h c) {sleepers : List (Sleeper κ Wait)}
    (hp : sleepers.Perm c.sleepers) : Balanced h { c with sleepers } where
  exclusive := hb.exclusive
  word := hb.word
  waiting := by rw [hb.waiting]; exact (hp.countP_eq _).symm
  requests := by
    rw [hb.requests]
    congr 3
    exact (hp.countP_eq _).symm
  line := by
    refine (hp.filterMap _).trans (hb.line.trans (.of_eq ?_))
    congr 1
    exact (hp.countP_eq _).symm
  fits := fun s hs ↦ hb.fits s (hp.mem_iff.1 hs)
  spins := hb.spins
  estimates := fun s hs ↦ hb.estimates s (hp.mem_iff.1 hs)

theorem withReads (hb : Balanced h c) (hw : h.writes = 0) (n : Nat) :
    Balanced ⟨n, 0⟩ { c with lock.word := Int32.ofNat (2 * n) } := by
  obtain ⟨reads, writes⟩ := h
  cases hw
  exact { hb with
    exclusive := .inl rfl
    word := rfl }

/-- Holders come or go in such a way that the same ticket is the next in line. -/
theorem turn (hb : Balanced h c) {h' : Holds} {l' : TicketLock}
    (hexclusive : h'.writes = 0 ∨ h'.writes = 1 ∧ h'.reads = 0)
    (hword : l'.word = Int32.ofNat (2 * h'.reads + h'.writes))
    (hnext : c.lock.completions + Int32.ofNat h.writes = l'.completions + Int32.ofNat h'.writes)
    (hrequests : l'.requests = c.lock.requests)
    (hwaiting : l'.readersWaiting = c.lock.readersWaiting) (hspins : l'.spins = c.lock.spins) :
    Balanced h' { c with lock := l' } where
  exclusive := hexclusive
  word := hword
  waiting := hwaiting ▸ hb.waiting
  requests := by
    rw [hrequests, hb.requests, Int32.ofNat_add, Int32.ofNat_add, ← Int32.add_assoc, hnext,
      Int32.add_assoc]
    rfl
  line := hnext ▸ hb.line
  fits := hnext ▸ hb.fits
  spins := hspins ▸ hb.spins
  estimates := hb.estimates

/-- A writer out of turn takes a ticket from in front of the line. -/
theorem jumpQueue (hb : Balanced h c) (hw : h.writes = 0) :
    Balanced ⟨0, 1⟩ { c with lock := c.lock.jumpQueue } := by
  refine hb.turn (.inr ⟨rfl, rfl⟩) rfl ?_ rfl rfl rfl
  rw [hw]
  change c.lock.completions + 0 = c.lock.completions - 1 + 1
  grind

theorem leaveWrite (hb : Balanced h c) (hw : h.writes = 1) (n : Nat) :
    Balanced ⟨n, 0⟩
      { c with
        lock.word := Int32.ofNat (2 * n)
        lock.completions := c.lock.completions + 1 } := by
  refine hb.turn (.inl rfl) rfl ?_ rfl rfl rfl
  rw [hw]
  exact (Int32.add_zero _).symm

theorem withSpins (hb : Balanced h c) {spins : Int32} (hs : Spin.Settled spins) :
    Balanced h { c with lock.spins := spins } := { hb with spins := hs }

theorem joinReader (hb : Balanced h c) {s : Sleeper κ Wait} (hs : s.wait = .behindWriters)
    (he : Spin.Settled s.estimate) {n : UInt32} (hn : n.toNat = c.lock.readersWaiting.toNat + 1) :
    Balanced h ⟨{ c.lock with readersWaiting := n }, c.sleepers ++ [s]⟩ := by
  have hm : s.mode = .read := by rw [Sleeper.mode, hs]; rfl
  have hread : (c.sleepers ++ [s]).countP (·.mode == .read) = c.sleeping .read + 1 := by
    rw [countP_concat, hm]
    rfl
  have hwrite : (c.sleepers ++ [s]).countP (·.mode == .write) = c.sleeping .write := by
    rw [countP_concat, hm]
    rfl
  exact { hb with
    waiting := by
      rw [hn, hb.waiting]
      exact hread.symm
    requests := by
      rw [hb.requests]
      exact congrArg (fun k ↦ c.lock.completions + Int32.ofNat (h.writes + k)) hwrite.symm
    line := by
      change (tickets (c.sleepers ++ [s])).Perm (ticketsFrom _ (List.countP _ _))
      rw [hwrite, tickets_append, tickets_singleton, hs]
      exact (List.append_nil _).symm ▸ hb.line
    fits := List.forall_mem_append.2 ⟨hb.fits, List.forall_mem_singleton.2 (hs ▸ trivial)⟩
    estimates := List.forall_mem_append.2 ⟨hb.estimates, List.forall_mem_singleton.2 he⟩ }

theorem joinWriter (hb : Balanced h c) {s : Sleeper κ Wait}
    (hs : s.wait.ticket? = some c.lock.requests)
    (hf : s.wait.Fits (c.lock.completions + Int32.ofNat h.writes))
    (he : Spin.Settled s.estimate) :
    Balanced h ⟨{ c.lock with requests := c.lock.requests + 1 }, c.sleepers ++ [s]⟩ := by
  have hm := mode_of_ticket? hs
  have hread : (c.sleepers ++ [s]).countP (·.mode == .read) = c.sleeping .read := by
    rw [countP_concat, hm]
    rfl
  have hwrite : (c.sleepers ++ [s]).countP (·.mode == .write) = c.sleeping .write + 1 := by
    rw [countP_concat, hm]
    rfl
  exact { hb with
    waiting := hb.waiting.trans hread.symm
    requests := by
      change c.lock.requests + 1 = c.lock.completions + Int32.ofNat (h.writes + List.countP _ _)
      rw [hb.requests, hwrite, ← Nat.add_assoc, Int32.ofNat_add (h.writes + c.sleeping .write),
        ← Int32.add_assoc]
      rfl
    line := by
      change (tickets (c.sleepers ++ [s])).Perm (ticketsFrom _ (List.countP _ _))
      rw [hwrite, tickets_append, tickets_singleton, hs, ticketsFrom_succ_last, Int32.add_assoc,
        ← Int32.ofNat_add, ← hb.requests]
      exact hb.line.append_right _
    fits := List.forall_mem_append.2 ⟨hb.fits, List.forall_mem_singleton.2 hf⟩
    estimates := List.forall_mem_append.2 ⟨hb.estimates, List.forall_mem_singleton.2 he⟩ }

end Balanced

end SyncKit.TicketLock
