import SyncKit.Proofs.Ticket.Balanced

namespace SyncKit.TicketLock

variable {κ : Type}

section Readers

theorem not_neg_of_word {l : TicketLock} {n : Nat} (h : l.word = Int32.ofNat (2 * n))
    (hn : n < 2 ^ 30) : ¬ l.word < 0 := by
  rw [h, Int32.lt_iff_toInt_lt, Int32.toInt_ofNat_of_lt (by omega)]
  change ¬ ((2 * n : Nat) : Int) < 0
  omega

theorem decrement_eq {n : UInt32} (h : 0 < n.toNat) :
    Checked.decrement n = .ok (UInt32.ofNat (n.toNat - 1)) := by
  have hdec := Checked.decrement_of_pos h
  rw [hdec, ← Checked.toNat_of_decrement hdec, Nat.add_sub_cancel, UInt32.ofNat_toNat]

theorem claimRead_of_free {l : TicketLock} {n : Nat} (hword : l.word = Int32.ofNat (2 * n))
    (hn : n < 2 ^ 30) :
    l.claimRead =
      .done .acquired { l with word := Int32.ofNat (2 * (n + 1)), granted := 0 } := by
  have hclaim : l.word + readerUnit = Int32.ofNat (2 * (n + 1)) := by
    rw [hword, ofNat_add_readerUnit]
    rfl
  have hnone : { l with word := Int32.ofNat (2 * (n + 1)) }.writerInside = false :=
    writerInside_of_word (r := n + 1) (w := 0) rfl (by omega)
  rw [claimRead, if_neg (not_neg_of_word hword hn), hclaim, awaitWriter, hnone]
  rfl

theorem resume_behindWriters {l : TicketLock} {s : Sleeper κ Wait} {n : Nat}
    (hs : s.wait = .behindWriters) (he : Spin.Settled s.estimate)
    (hword : l.word = Int32.ofNat (2 * n)) (hn : n < 2 ^ 30) (hw : 0 < l.readersWaiting.toNat) :
    ∃ moved, Spin.Settled moved ∧ Contended.resume s l = Step.done (F := Fault) .acquired
      { l with
        word := Int32.ofNat (2 * (n + 1))
        readersWaiting := UInt32.ofNat (l.readersWaiting.toNat - 1)
        granted := 0
        spins := moved } := by
  obtain ⟨moved, hm, hsettled⟩ := Spin.next_settled he
    (Spin.spent_none_bounds he)
  refine ⟨moved, hsettled, ?_⟩
  have hr : RawLock.resume s.wait l = Step.done (F := Fault) .acquired
      { l with
        word := Int32.ofNat (2 * (n + 1))
        readersWaiting := UInt32.ofNat (l.readersWaiting.toNat - 1)
        granted := 0 } := by
    rw [hs]
    change l.wakeReader claimRead = _
    rw [wakeReader, decrement_eq hw]
    exact claimRead_of_free (l := { l with readersWaiting := _ }) hword hn
  rw [Contended.resume, hr, Contended.conclude_acquired rfl hm]
  rfl

/-- All readers that are woken while no writer is inside get in, in whatever order they run. -/
theorem resumeAll_readers (ws : List (Sleeper κ Wait)) (hws : ∀ s ∈ ws, s.wait = .behindWriters)
    (he : ∀ s ∈ ws, Spin.Settled s.estimate) {l : TicketLock} {n : Nat}
    (hword : l.word = Int32.ofNat (2 * n)) (hn : n + ws.length ≤ 2 ^ 30)
    (hw : ws.length ≤ l.readersWaiting.toNat) (hspins : Spin.Settled l.spins) :
    ∃ spins notes, Spin.Settled spins ∧ Contended.resumeAll (F := Fault) l ws =
      { lock :=
          { l with
            word := Int32.ofNat (2 * (n + ws.length))
            readersWaiting := UInt32.ofNat (l.readersWaiting.toNat - ws.length)
            granted := if ws.isEmpty then l.granted else 0
            spins }
        returned := ws.map Sleeper.granted
        asleep := []
        notes } := by
  induction ws generalizing l n with
  | nil =>
    refine ⟨l.spins, [], hspins, ?_⟩
    obtain ⟨word, requests, completions, granted, spins, readersWaiting, quota⟩ := l
    simp only [Contended.resumeAll_nil, List.length_nil, Nat.add_zero, Nat.sub_zero,
      List.isEmpty_nil, ↓reduceIte, UInt32.ofNat_toNat, List.map_nil, ← hword]
  | cons s ws ih =>
    simp only [List.length_cons] at hn hw
    obtain ⟨moved, hmoved, hr⟩ := resume_behindWriters (hws s List.mem_cons_self)
      (he s List.mem_cons_self) hword (by omega) (by omega)
    have hcount : (UInt32.ofNat (l.readersWaiting.toNat - 1)).toNat =
        l.readersWaiting.toNat - 1 := by
      have := l.readersWaiting.toNat_lt
      exact UInt32.toNat_ofNat_of_lt' (show _ < 2 ^ 32 by omega)
    obtain ⟨spins, notes, hspins, hrest⟩ := ih (fun t ht ↦ hws t (List.mem_cons_of_mem s ht))
      (fun t ht ↦ he t (List.mem_cons_of_mem s ht))
      (l := (Contended.resume (F := Fault) s l).lock) (n := n + 1) (by rw [hr]; rfl) (by omega)
      (by rw [hr]; simp only [Step.done, hcount]; omega) (by rw [hr]; exact hmoved)
    have hin : n + 1 + ws.length = n + (ws.length + 1) := by omega
    have hleft :
        l.readersWaiting.toNat - 1 - ws.length = l.readersWaiting.toNat - (ws.length + 1) := by
      omega
    refine ⟨spins, notes, hspins, ?_⟩
    rw [Contended.resumeAll_cons_acquired ws (by rw [hr]; rfl), hrest, hr]
    simp only [Step.done, hcount, hin, hleft, List.length_cons, List.map_cons, List.isEmpty_cons,
      Bool.false_eq_true, ↓reduceIte, ite_self, List.nil_append]

end Readers

section Writers

theorem resume_turn {l : TicketLock} {s : Sleeper κ Wait} {ticket : Int32}
    (hs : s.wait = .turn ticket) (hne : ticket ≠ l.completions) :
    Contended.resume s l =
      { result := .ok (.asleep (.turn ticket)), lock := l,
        notes := [.trace "Writer waiting for its turn"] } := by
  have hr : RawLock.resume s.wait l =
      { result := .ok (.asleep (.turn ticket)), lock := l,
        notes := [.trace "Writer waiting for its turn"] } := by
    rw [hs]
    change l.awaitTurn ticket = _
    rw [awaitTurn, if_neg hne.symm]
  rw [Contended.resume, hr, Contended.conclude_asleep rfl]

/-- The writer whose turn it is gets the lock when nobody is inside, in whichever of its two loops
it slept. -/
theorem resume_next {l : TicketLock} {s : Sleeper κ Wait}
    (hs : s.wait.ticket? = some l.completions) (he : Spin.Settled s.estimate)
    (hword : l.word = 0) :
    ∃ moved, Spin.Settled moved ∧ Contended.resume s l = Step.done (F := Fault) .acquired
      { l with word := writerBit, granted := l.granted + 1, spins := moved } := by
  obtain ⟨moved, hm, hsettled⟩ := Spin.next_settled he (Spin.spent_none_bounds he)
  refine ⟨moved, hsettled, ?_⟩
  have hdrain : l.awaitDrain l.completions = Step.done (F := Fault) .acquired
      { l with word := writerBit, granted := l.granted + 1 } := by
    rw [awaitDrain, if_pos hword]
  have hr : RawLock.resume s.wait l = Step.done (F := Fault) .acquired
      { l with word := writerBit, granted := l.granted + 1 } := by
    cases hw : s.wait with
    | behindWriters => rw [hw] at hs; cases hs
    | writerInside => rw [hw] at hs; cases hs
    | turn ticket =>
      rw [hw] at hs
      cases hs
      change l.awaitTurn l.completions = _
      rw [awaitTurn, if_pos rfl, hdrain]
    | drain ticket =>
      rw [hw] at hs
      cases hs
      exact hdrain
  rw [Contended.resume, hr, Contended.conclude_acquired rfl hm]
  rfl

theorem resumeAll_idle (ws : List (Sleeper κ Wait)) {l : TicketLock}
    (hws : ∀ s ∈ ws, ∃ ticket, s.wait = .turn ticket ∧ ticket ≠ l.completions) :
    ∃ notes, Contended.resumeAll (F := Fault) l ws = { lock := l, asleep := ws, notes } := by
  induction ws with
  | nil => exact ⟨[], rfl⟩
  | cons s ws ih =>
    obtain ⟨ticket, hs, hne⟩ := hws s List.mem_cons_self
    obtain ⟨notes, hrest⟩ := ih fun t ht ↦ hws t (List.mem_cons_of_mem s ht)
    have hr := resume_turn hs hne
    refine ⟨[.trace "Writer waiting for its turn"] ++ notes, ?_⟩
    rw [Contended.resumeAll_cons_asleep ws (by rw [hr]), hr, hrest, ← hs]

theorem turn_of_fits {s : Sleeper κ Wait} {next : Int32} (hm : s.mode = .write)
    (hf : s.wait.Fits next) (hne : s.wait.ticket? ≠ some next) :
    ∃ ticket, s.wait = .turn ticket ∧ ticket ≠ next := by
  rw [mode_eq_write_iff] at hm
  cases hw : s.wait with
  | behindWriters => rw [hw] at hm; cases hm
  | writerInside => rw [hw] at hm; cases hm
  | turn ticket => exact ⟨ticket, rfl, fun he ↦ hne (by rw [hw, he]; rfl)⟩
  | drain ticket =>
    rw [hw] at hf hne
    exact absurd (congrArg some hf) hne

/-- Of all the sleeping writers, woken while nobody is inside, exactly the one whose turn it is gets
the lock, in whatever order they run. -/
theorem resumeAll_writers {ws : List (Sleeper κ Wait)} {l : TicketLock} {n : Nat}
    (hword : l.word = 0) (ht : (tickets ws).Perm (ticketsFrom l.completions (n + 1)))
    (hn : n + 1 ≤ 2 ^ 32) (hmode : ∀ s ∈ ws, s.mode = .write)
    (hfits : ∀ s ∈ ws, s.wait.Fits l.completions) (he : ∀ s ∈ ws, Spin.Settled s.estimate) :
    ∃ before first after spins notes, ws = before ++ first :: after ∧
      first.wait.ticket? = some l.completions ∧ Spin.Settled spins ∧
      Contended.resumeAll (F := Fault) l ws =
        { lock := { l with word := writerBit, granted := l.granted + 1, spins }
          returned := [first.granted]
          asleep := before ++ after
          notes } := by
  have hmem : l.completions ∈ tickets ws := by
    rw [ht.mem_iff, ticketsFrom_succ]
    exact List.mem_cons_self
  obtain ⟨first, hfirst, hticket⟩ := List.mem_filterMap.1 hmem
  obtain ⟨before, after, rfl⟩ := List.append_of_mem hfirst
  have hnodup : (tickets (before ++ first :: after)).Nodup :=
    ht.nodup_iff.2 (nodup_ticketsFrom _ hn)
  have hsplit : tickets (before ++ first :: after) =
      tickets before ++ l.completions :: tickets after := by
    rw [tickets_append, tickets, tickets, tickets, List.filterMap_cons, hticket]
  have hother : ∀ s ∈ before ++ after, s.wait.ticket? ≠ some l.completions := by
    intro s hs hst
    have hmem : l.completions ∈ tickets (before ++ after) := List.mem_filterMap.2 ⟨s, hs, hst⟩
    rw [hsplit, List.perm_middle.nodup_iff, List.nodup_cons, ← tickets_append] at hnodup
    exact hnodup.1 hmem
  have hsub : ∀ s ∈ before ++ after, s ∈ before ++ first :: after := by
    intro s hs
    rcases List.mem_append.1 hs with hs | hs
    · exact List.mem_append_left _ hs
    · exact List.mem_append_right _ (List.mem_cons_of_mem _ hs)
  have hidle : ∀ s ∈ before ++ after, ∃ ticket, s.wait = .turn ticket ∧ ticket ≠ l.completions :=
    fun s hs ↦ turn_of_fits (hmode s (hsub s hs)) (hfits s (hsub s hs)) (hother s hs)
  obtain ⟨notes, hbefore⟩ := resumeAll_idle before (l := l) fun s hs ↦
    hidle s (List.mem_append_left _ hs)
  obtain ⟨moved, hmoved, hr⟩ := resume_next hticket (he first hfirst) hword
  obtain ⟨notes', hafter⟩ := resumeAll_idle after
    (l := { l with word := writerBit, granted := l.granted + 1, spins := moved }) fun s hs ↦
      hidle s (List.mem_append_right _ hs)
  refine ⟨before, first, after, moved, notes ++ notes', rfl, hticket, hmoved, ?_⟩
  rw [Contended.resumeAll_append, hbefore]
  dsimp only
  rw [Contended.resumeAll_cons_acquired after (by rw [hr]; rfl), hr]
  simp only [Step.done, hafter, List.nil_append]

end Writers

end SyncKit.TicketLock
