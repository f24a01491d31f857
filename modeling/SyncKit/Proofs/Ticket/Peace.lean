import SyncKit.Proofs.Lock.Grants
import SyncKit.Proofs.Ticket.Calling

namespace SyncKit.TicketLock

section Serve

variable {κ : Type} {h : Holds} {c : Contended TicketLock Wait κ}

theorem request_faults {r : Request} {f : Fault} {l : TicketLock}
    (hf : RawLock.request r c.lock = Step.fault f l) : (c.request r).faultless = false := by
  rw [Contended.request_of_fault hf]
  rfl

/-- Giving back or converting a hold that is not there is the only way to fault. -/
theorem permits_of_faultless (hs : Sound h c) {r : Request} (hf : (c.request r).faultless = true) :
    h.Permits r := by
  have hle := hs.balanced.writes_le
  have hnot {f : Fault} {l : TicketLock} : ¬ RawLock.request r c.lock = Step.fault f l := by
    intro he
    rw [request_faults he] at hf
    cases hf
  match r with
  | .tryLock _ => trivial
  | .unlock .read =>
    exact Nat.pos_of_ne_zero fun hr ↦ hnot (unlockRead_of_not_held hs.balanced hs.modest hr)
  | .unlock .write =>
    exact Nat.pos_of_ne_zero fun hw ↦ hnot (unlockWrite_of_not_held hs.balanced (by
      change h.writes = 0 at hw
      omega))
  | .upgrade =>
    exact Nat.pos_of_ne_zero fun hr ↦ hnot (upgrade_of_not_held hs.balanced hs.modest hr)
  | .downgrade =>
    exact Nat.pos_of_ne_zero fun hw ↦ hnot (downgrade_of_not_held hs.balanced (by omega))

namespace Sound

theorem serveRequest (hs : Sound h c) (r : Request) (hf : (c.request r).faultless = true) :
    let out := c.request r
    Handover (if out.reply.met then h.met (.request (κ := κ) r) else h) c.sleepers out.returned
      out.after := by
  have hheld := permits_of_faultless hs hf
  have hle := hs.balanced.writes_le
  match r with
  | .tryLock .read =>
    obtain ⟨hreply, hafter⟩ | ⟨hreply, hafter⟩ := hs.tryRead <;> dsimp only <;> rw [hreply] <;>
      exact hafter
  | .tryLock .write =>
    obtain ⟨hreply, hafter⟩ | ⟨hreply, hafter⟩ := hs.tryWrite <;> dsimp only <;> rw [hreply] <;>
      exact hafter
  | .unlock .read =>
    obtain ⟨hreply, hafter⟩ := hs.unlockRead hheld
    dsimp only
    rw [hreply]
    exact hafter
  | .unlock .write =>
    obtain ⟨hreply, hafter⟩ := hs.unlockWrite (Nat.le_antisymm hle hheld)
    dsimp only
    rw [hreply]
    exact hafter
  | .upgrade =>
    obtain ⟨hreply, hafter⟩ | ⟨hreply, hafter⟩ := hs.upgrade hheld <;> dsimp only <;>
      rw [hreply] <;> exact hafter
  | .downgrade =>
    obtain ⟨hreply, hafter⟩ := hs.downgrade (Nat.le_antisymm hle hheld)
    dsimp only
    rw [hreply]
    exact hafter

theorem call (hs : Sound h c) (caller : κ) (m : Mode) :
    let out := c.call caller m
    out.returned = [] ∧
      (out.reply = .asleep ∧ Balanced h out.after ∧ Awake h out.after ∨
        out.reply = .done ∧ Balanced (h.take m) out.after ∧ Awake (h.take m) out.after) := by
  cases m with
  | read => exact hs.callRead caller
  | write => exact hs.callWrite caller

theorem serve (hs : Sound h c) (d : Demand κ) (hf : (c.serve d).faultless = true) :
    Balanced ((c.serve d).settle d h) (c.serve d).after ∧
      Awake ((c.serve d).settle d h) (c.serve d).after := by
  cases d with
  | request r =>
    have hafter := hs.serveRequest r hf
    exact ⟨hafter.balanced, hafter.awake⟩
  | call caller m =>
    obtain ⟨hreturned, hafter⟩ := hs.call caller m
    have hserve : c.serve (.call caller m) = c.call caller m := rfl
    rw [hserve]
    obtain ⟨hreply, hafter⟩ | ⟨hreply, hafter⟩ := hafter
    · rwa [Outcome.settle_of_asleep hreturned hreply]
    · rwa [Outcome.settle_of_done hreturned hreply]

theorem perm (hs : Sound h c) {sleepers : List (Sleeper κ Wait)} (hp : sleepers.Perm c.sleepers) :
    Sound h { c with sleepers } where
  balanced := hs.balanced.perm hp
  awake := by
    have hcount (m : Mode) : sleepers.countP (·.mode == m) = c.sleeping m := hp.countP_eq _
    refine ⟨fun hpos ↦ hs.awake.writers ?_, fun hpos ↦ ?_⟩
    · rwa [← hcount]
    · have := hs.awake.readers (by rwa [← hcount])
      rwa [Contended.sleeping, hcount]
  modest := ⟨hs.modest.reads, hp.length_eq ▸ hs.modest.sleepers⟩

end Sound

end Serve

/-- An operation in which nobody faults, made where the grants and the sleepers stay few. -/
structure Peaceful (_ : Situation TicketLock Wait) (move : Situation.Move TicketLock Wait Fault)
    (t : Situation TicketLock Wait) : Prop where
  faultless : move.report.faultless = true
  modest : Modest t.holds t.calls

theorem sound_fresh (q : Quotas) :
    Sound {} (Situation.fresh (W := Wait) (TicketLock.ofQuotas q).1).calls where
  balanced :=
    { exclusive := .inl rfl
      word := rfl
      waiting := rfl
      requests := rfl
      line := .nil
      fits := nofun
      spins := ⟨Int.le_refl 0, show (0 : Int) ≤ 94 by decide⟩
      estimates := nofun }
  awake := ⟨nofun, nofun⟩
  modest := ⟨show 0 < 2 ^ 30 by decide, show 0 < 2 ^ 30 by decide⟩

variable {s t : Situation TicketLock Wait} {move : Situation.Move TicketLock Wait Fault}
  {moves : List (Situation.Move TicketLock Wait Fault)}

theorem Sound.step (hs : Sound s.holds s.calls) (hstep : Situation.Step s move t)
    (hpeace : Peaceful s move t) : Sound t.holds t.calls := by
  have hmodest := hpeace.modest
  obtain ⟨sleepers, hp, ⟨-, hcalls, hholds, -⟩ | ⟨d, out, -, hout, hf, hcalls, hholds, -⟩⟩ :=
    hstep.serves hpeace.faultless
  · rw [hcalls, hholds]
    exact hs.perm hp
  · subst hout
    obtain ⟨hb, ha⟩ := (hs.perm hp).serve d hf
    rw [← hcalls, ← hholds] at hb ha
    exact ⟨hb, ha, hmodest⟩

theorem Sound.run (hrun : Situation.Run Peaceful s moves t) (hs : Sound s.holds s.calls) :
    Sound t.holds t.calls :=
  hrun.preserves (fun _ _ _ ↦ Sound.step) hs

/-- Writers exclude everybody, and the fields of the lock account for who is inside and who sleeps:
each sleeping writer has one of the tickets from the first that is not served to the last that was
given out. -/
theorem books_balance (q : Quotas)
    (hrun : Situation.Run Peaceful (Situation.fresh (TicketLock.ofQuotas q).1) moves s) :
    let l := s.calls.lock
    let r := s.holds.reads
    let w := s.holds.writes
    let b := s.calls.sleeping .write
    let writers := s.calls.sleepers.filter (·.mode == .write)
    w ≤ 1 ∧ (w = 1 → r = 0) ∧ l.word.toInt = 2 * r + w ∧
      l.readersWaiting.toNat = s.calls.sleeping .read ∧
      l.requests - l.completions = Int32.ofNat (b + w) ∧
      (writers.map (·.wait.ticket?)).Perm
        ((List.range b).map fun k ↦ some (l.completions + Int32.ofNat (w + k))) ∧
      (writers.map (·.wait.ticket?)).Nodup := by
  have hs := Sound.run hrun (sound_fresh q)
  have hb := hs.balanced
  have hexclusive := hb.exclusive
  have hreads := hs.modest.reads
  have hsleepers := hs.modest.sleepers
  have hle := s.calls.sleeping_le .write
  have hqueued : s.calls.lock.requests - s.calls.lock.completions =
      Int32.ofNat (s.calls.sleeping .write + s.holds.writes) := by
    rw [hb.requests, Nat.add_comm]
    grind
  have hline : (ticketsFrom (s.calls.lock.completions + Int32.ofNat s.holds.writes)
      (s.calls.sleeping .write)).map some = (List.range (s.calls.sleeping .write)).map fun k ↦
        some (s.calls.lock.completions + Int32.ofNat (s.holds.writes + k)) := by
    rw [ticketsFrom, List.map_map]
    refine List.map_congr_left fun k _ ↦ congrArg some ?_
    rw [Int32.ofNat_add]
    exact Int32.add_assoc _ _ _
  dsimp only
  rw [map_ticket?_writers]
  refine ⟨by omega, by omega, ?_, hb.waiting, hqueued, hline ▸ hb.line.map some, ?_⟩
  · rw [hb.word, Int32.toInt_ofNat_of_lt (by omega)]
    omega
  · have hnodup := hb.line.nodup_iff.2 (nodup_ticketsFrom _ (by omega))
    exact List.pairwise_map.2 (hnodup.imp fun hne he ↦ hne (Option.some.inj he))

theorem books_balance_upgraded :
    ∃ moves s, Situation.Run Peaceful (Situation.fresh (TicketLock.ofQuotas {}).1) moves s ∧
      s.holds = ⟨0, 1⟩ ∧ s.calls.sleeping .read = 1 ∧ s.calls.lock.word.toInt = 1 ∧
      s.calls.lock.readersWaiting.toNat = 1 ∧
      ((s.calls.sleepers.filter (·.mode == .write)).map (·.wait.ticket?)).Perm
        [some 0, some 1] := by
  -- Two writers sleep behind a reader, which then becomes the writer ahead of both.
  obtain ⟨moves, s, hrun, hholds, hread, hwrite, hnext⟩ :
      ∃ moves s, Situation.Run Peaceful (Situation.fresh (TicketLock.ofQuotas {}).1) moves s ∧
        s.holds = ⟨0, 1⟩ ∧ s.calls.sleeping .read = 1 ∧ s.calls.sleeping .write = 2 ∧
        s.calls.lock.completions = -1 :=
    ⟨_, _,
      .cons (.intro (.request (.tryLock .read)) (.refl _) rfl) ⟨rfl, by decide, by decide⟩ <|
      .cons (.intro (.lock .write "first") (.refl _) rfl) ⟨rfl, by decide, by decide⟩ <|
      .cons (.intro (.lock .write "second") (.refl _) rfl) ⟨rfl, by decide, by decide⟩ <|
      .cons (.intro (.lock .read "third") (.refl _) rfl) ⟨rfl, by decide, by decide⟩ <|
      .cons (.intro (.request .upgrade) (.refl _) rfl) ⟨rfl, by decide, by decide⟩ <|
      .nil _, rfl, rfl, rfl, rfl⟩
  obtain ⟨-, -, hword, hwaiting, -, hline, -⟩ := books_balance {} hrun
  rw [hholds] at hword hline
  rw [hwrite, hnext] at hline
  exact ⟨moves, s, hrun, hholds, hread, hword, hwaiting.trans hread, hline⟩

end SyncKit.TicketLock
