import SyncKit.Proofs.Ticket.Waking

namespace SyncKit.TicketLock

variable {κ : Type} {h : Holds} {c : Contended TicketLock Wait κ}

theorem behindWriters_of_fits {s : Sleeper κ Wait} {next : Int32} (hm : s.mode = .read)
    (hf : s.wait.Fits next) : s.wait = .behindWriters := by
  obtain ⟨caller, wait, estimate⟩ := s
  cases wait with
  | behindWriters => rfl
  | writerInside => exact hf.elim
  | turn ticket => cases hm
  | drain ticket => cases hm

theorem ticket?_of_read {s : Sleeper κ Wait} (hm : s.mode = .read) : s.wait.ticket? = none := by
  rw [← Option.not_isSome_iff_eq_none, ← mode_eq_write_iff, hm]
  exact nofun

theorem tickets_of_read {sleepers : List (Sleeper κ Wait)} (hm : ∀ s ∈ sleepers, s.mode = .read) :
    tickets sleepers = [] :=
  List.filterMap_eq_nil_iff.2 fun s hs ↦ ticket?_of_read (hm s hs)

theorem countP_of_mode {sleepers : List (Sleeper κ Wait)} {m : Mode}
    (hm : ∀ s ∈ sleepers, s.mode = m) (m' : Mode) :
    sleepers.countP (·.mode == m') = if m = m' then sleepers.length else 0 := by
  split
  · next he =>
    subst he
    exact List.countP_eq_length.2 fun s hs ↦ beq_iff_eq.2 (hm s hs)
  · next he =>
    exact List.countP_eq_zero.2 fun s hs hs' ↦ he ((hm s hs).symm.trans (beq_iff_eq.1 hs'))

namespace Balanced

theorem admitReaders (hb : Balanced h c) (hw : h.writes = 0) {readers rest : List (Sleeper κ Wait)}
    (hp : c.sleepers.Perm (readers ++ rest)) (hreaders : ∀ s ∈ readers, s.mode = .read)
    (hrest : ∀ s ∈ rest, s.mode = .write) (granted : Int32) {spins : Int32}
    (hs : Spin.Settled spins) :
    Balanced ⟨h.reads + readers.length, 0⟩
      ⟨{ c.lock with
          word := Int32.ofNat (2 * (h.reads + readers.length))
          readersWaiting := UInt32.ofNat (c.lock.readersWaiting.toNat - readers.length)
          granted
          spins }, rest⟩ := by
  have hread : c.sleeping .read = readers.length := by
    rw [Contended.sleeping, hp.countP_eq, List.countP_append, countP_of_mode hreaders,
      countP_of_mode hrest]
    rfl
  have hwrite : c.sleeping .write = rest.countP (·.mode == .write) := by
    rw [Contended.sleeping, hp.countP_eq, List.countP_append, countP_of_mode hreaders]
    exact Nat.zero_add _
  have hzero : rest.countP (·.mode == .read) = 0 := countP_of_mode hrest .read
  have htickets := hb.line
  have hrequests := hb.requests
  have hfits := hb.fits
  rw [hw, hwrite] at hrequests htickets
  rw [hw] at hfits
  exact {
    exclusive := .inl rfl
    word := rfl
    waiting := by
      change (UInt32.ofNat (c.lock.readersWaiting.toNat - readers.length)).toNat = _
      rw [hb.waiting, hread, Nat.sub_self]
      exact hzero.symm
    requests := hrequests
    line := by
      refine List.Perm.trans ?_ htickets
      refine .trans (.of_eq ?_) (hp.filterMap _).symm
      change tickets rest = tickets (readers ++ rest)
      rw [tickets_append, tickets_of_read hreaders, List.nil_append]
    fits := fun s hs ↦ hfits s (hp.mem_iff.2 (List.mem_append_right _ hs))
    spins := hs
    estimates := fun s hs ↦ hb.estimates s (hp.mem_iff.2 (List.mem_append_right _ hs)) }

theorem admitWriter (hb : Balanced h c) (hw : h.writes = 0) (hlen : c.sleepers.length < 2 ^ 30)
    {first : Sleeper κ Wait} {rest : List (Sleeper κ Wait)}
    (hp : c.sleepers.Perm (first :: rest)) (hfirst : first.wait.ticket? = some c.lock.completions)
    (granted : Int32) {spins : Int32} (hs : Spin.Settled spins) :
    Balanced ⟨0, 1⟩ ⟨{ c.lock with word := writerBit, granted, spins }, rest⟩ := by
  have hmode := mode_of_ticket? hfirst
  have hwrite : c.sleeping .write = rest.countP (·.mode == .write) + 1 := by
    rw [Contended.sleeping, hp.countP_eq, List.countP_cons, hmode]
    rfl
  have hread : c.sleeping .read = rest.countP (·.mode == .read) := by
    rw [Contended.sleeping, hp.countP_eq, List.countP_cons, hmode]
    rfl
  have hle := c.sleeping_le .write
  have hzero : c.lock.completions + Int32.ofNat h.writes = c.lock.completions := by
    rw [hw]
    exact Int32.add_zero _
  have htickets : (tickets (first :: rest)).Perm
      (c.lock.completions ::
        ticketsFrom (c.lock.completions + 1) (rest.countP (·.mode == .write))) := by
    have h := hb.line
    rw [hzero, hwrite, ticketsFrom_succ] at h
    exact (hp.filterMap _).symm.trans h
  have hsplit : tickets (first :: rest) = c.lock.completions :: tickets rest := by
    rw [tickets, List.filterMap_cons, hfirst]
    rfl
  rw [hsplit] at htickets
  have hnodup : (c.lock.completions :: tickets rest).Nodup := by
    rw [htickets.nodup_iff, ← ticketsFrom_succ]
    exact nodup_ticketsFrom _ (by omega)
  exact {
    exclusive := .inr ⟨rfl, rfl⟩
    word := rfl
    waiting := hb.waiting.trans hread
    requests := by
      rw [hb.requests, hw, hwrite]
      change _ = c.lock.completions + Int32.ofNat (1 + rest.countP (·.mode == .write))
      rw [Nat.zero_add, Nat.add_comm]
    line := htickets.cons_inv
    fits := by
      intro s hs
      have hf := hb.fits s (hp.mem_iff.2 (List.mem_cons_of_mem _ hs))
      rw [hzero] at hf
      cases hwait : s.wait with
      | behindWriters => trivial
      | writerInside => rw [hwait] at hf; exact hf
      | turn ticket => trivial
      | drain ticket =>
        -- The ticket whose turn it was belongs to the writer that came in.
        rw [hwait] at hf
        cases hf
        exact absurd (List.mem_filterMap.2 ⟨s, hs, by rw [hwait]; rfl⟩) (List.nodup_cons.1 hnodup).1
    spins := hs
    estimates := fun s hs ↦ hb.estimates s (hp.mem_iff.2 (List.mem_cons_of_mem _ hs)) }

variable {α : Type} {step : Step TicketLock Fault α}

/-- Waking the readers while no writer is inside grants all of them, and nobody else. -/
theorem settle_readers (hb : Balanced h c) (hw : h.writes = 0)
    (hr : h.reads + c.sleeping .read ≤ 2 ^ 30) (hl : step.lock = c.lock)
    (hs : step.signals = [.all .read]) :
    let run := Contended.settle step c.sleepers
    ∃ readers, run.returned = readers.map Sleeper.granted ∧ (∀ s ∈ readers, s.mode = .read) ∧
      (∀ s ∈ run.asleep, s.mode = .write) ∧ c.sleepers.Perm (readers ++ run.asleep) ∧
      run.lock.granted = (if readers.isEmpty then c.lock.granted else 0) ∧
      run.lock.writeQuota = c.lock.writeQuota ∧
      Balanced ⟨h.reads + readers.length, 0⟩ ⟨run.lock, run.asleep⟩ := by
  have hlen : (c.sleepers.filter (·.mode == .read)).length = c.sleeping .read :=
    List.countP_eq_length_filter.symm
  have hreaders : ∀ s ∈ c.sleepers.filter (·.mode == .read), s.mode = .read :=
    fun s hs ↦ beq_iff_eq.1 (List.mem_filter.1 hs).2
  have hrest : ∀ s ∈ c.sleepers.filter (·.mode != .read), s.mode = .write :=
    fun s hs ↦ Contended.mode_of_mem_filter_ne (by decide) hs
  obtain ⟨spins, notes, hspins, hrun⟩ := resumeAll_readers
    (c.sleepers.filter (·.mode == .read)) (l := c.lock) (n := h.reads)
    (fun s hs ↦ behindWriters_of_fits (hreaders s hs) (hb.fits s (List.mem_filter.1 hs).1))
    (fun s hs ↦ hb.estimates s (List.mem_filter.1 hs).1)
    (by rw [hb.word, hw]; rfl) (by rw [hlen]; exact hr)
    (Nat.le_of_eq (hlen.trans hb.waiting.symm)) hb.spins
  have hp : c.sleepers.Perm
      (c.sleepers.filter (·.mode == .read) ++ c.sleepers.filter (·.mode != .read)) :=
    (List.filter_append_perm _ _).symm
  have hadmit := hb.admitReaders hw hp hreaders hrest
    (if (c.sleepers.filter (·.mode == .read)).isEmpty then c.lock.granted else 0) hspins
  refine ⟨c.sleepers.filter (·.mode == .read), ?_⟩
  simp only [Contended.settle_of_all hs, hl, hrun, List.append_nil, true_and]
  exact ⟨hreaders, hrest, hp, hadmit⟩

/-- Waking the writers while nobody is inside grants the one whose turn it is, and nobody else. -/
theorem settle_writers (hb : Balanced h c) (hr : h.reads = 0) (hw : h.writes = 0)
    (hlen : c.sleepers.length < 2 ^ 30) (hpos : 0 < c.sleeping .write) (hl : step.lock = c.lock)
    (hs : step.signals = [.all .write]) :
    let run := Contended.settle step c.sleepers
    ∃ first, first.wait.ticket? = some c.lock.completions ∧ run.returned = [first.granted] ∧
      c.sleepers.Perm (first :: run.asleep) ∧ run.lock.granted = c.lock.granted + 1 ∧
      run.lock.writeQuota = c.lock.writeQuota ∧ Balanced ⟨0, 1⟩ ⟨run.lock, run.asleep⟩ := by
  have hle := c.sleeping_le .write
  have hword : c.lock.word = 0 := by
    rw [hb.word, hr, hw]
    rfl
  have hzero : c.lock.completions + Int32.ofNat h.writes = c.lock.completions := by
    rw [hw]
    exact Int32.add_zero _
  have hfits := hb.fits
  have hline := hb.line
  rw [hzero] at hfits hline
  have hp : c.sleepers.Perm
      (c.sleepers.filter (·.mode == .write) ++ c.sleepers.filter (·.mode != .write)) :=
    (List.filter_append_perm _ _).symm
  have hread : ∀ s ∈ c.sleepers.filter (·.mode != .write), s.mode = .read :=
    fun s hs ↦ Contended.mode_of_mem_filter_ne (by decide) hs
  have htickets : (tickets (c.sleepers.filter (·.mode == .write))).Perm
      (ticketsFrom c.lock.completions (c.sleeping .write - 1 + 1)) := by
    have h := (hp.filterMap _).symm.trans hline
    change (tickets (_ ++ _)).Perm _ at h
    rw [tickets_append, tickets_of_read hread, List.append_nil] at h
    rwa [Nat.sub_add_cancel hpos]
  obtain ⟨before, first, after, spins, notes, hsplit, hfirst, hspins, hrun⟩ :=
    resumeAll_writers hword htickets (by omega)
      (fun s hs ↦ beq_iff_eq.1 (List.mem_filter.1 hs).2)
      (fun s hs ↦ hfits s (List.mem_filter.1 hs).1)
      (fun s hs ↦ hb.estimates s (List.mem_filter.1 hs).1)
  have hperm : c.sleepers.Perm
      (first :: (c.sleepers.filter (·.mode != .write) ++ (before ++ after))) := by
    refine hp.trans ?_
    rw [hsplit]
    refine (List.perm_append_comm).trans ?_
    rw [← List.append_assoc, ← List.append_assoc]
    exact List.perm_middle
  refine ⟨first, hfirst, ?_⟩
  simp only [Contended.settle_of_all hs, hl, hrun, true_and]
  exact ⟨hperm, hb.admitWriter hw hlen hperm hfirst _ hspins⟩

end Balanced

end SyncKit.TicketLock
