import SyncKit.Proofs.Lock.Admission
import SyncKit.Proofs.Ticket.Wakeup

namespace SyncKit

def Request.misuse? : Request → Option Misuse
  | .unlock m => some (.release m)
  | .upgrade => some .upgrade
  | .downgrade => some .downgrade
  | .tryLock _ => none

namespace TicketLock

/-- What a request has added to the word by the time it finds out that it is misuse. -/
def slip : Request → Int32
  | .unlock .read => -readerUnit
  | .unlock .write => -writerBit
  | .downgrade => readerUnit
  | .upgrade => 0
  | .tryLock _ => 0

section Requests

variable {κ : Type} {h : Holds} {c : Contended TicketLock Wait κ} {l : TicketLock}

theorem request_of_misuse (hb : Balanced h c) (hm : Modest h c) {r : Request}
    (hn : ¬ h.Permits r) :
    ∃ misuse, r.misuse? = some misuse ∧ RawLock.request r c.lock =
      Step.fault (.notHeld misuse) { c.lock with word := c.lock.word + slip r } := by
  have hle := hb.writes_le
  match r with
  | .tryLock _ => exact absurd trivial hn
  | .unlock .read =>
    refine ⟨_, rfl, (unlockRead_of_not_held hb hm (Nat.eq_zero_of_not_pos hn)).trans ?_⟩
    rw [Int32.sub_eq_add_neg]
    rfl
  | .unlock .write =>
    have hw : h.writes ≠ 1 := fun hw ↦ hn (by change 0 < h.writes; omega)
    refine ⟨_, rfl, (unlockWrite_of_not_held hb hw).trans ?_⟩
    rw [Int32.sub_eq_add_neg]
    rfl
  | .upgrade =>
    refine ⟨_, rfl, (upgrade_of_not_held hb hm (Nat.eq_zero_of_not_pos hn)).trans ?_⟩
    rw [slip, Int32.add_zero]
  | .downgrade =>
    have hw : h.writes ≠ 1 := fun hw ↦ hn (by change 0 < h.writes; omega)
    exact ⟨_, rfl, downgrade_of_not_held hb hw⟩

theorem unlockRead_of_others {n w : Nat} (hword : l.word = Int32.ofNat (2 * (n + 1) + w))
    (hw : w ≤ 1) (hn : n < 2 ^ 30) (hothers : 0 < n + w) :
    l.unlockRead = .done .done { l with word := Int32.ofNat (2 * n + w) } := by
  have hinside : l.readersInside = true := by
    rw [readersInside_of_word hword hw (by omega), decide_eq_true (Nat.succ_pos n)]
  have hleft : l.word - readerUnit = Int32.ofNat (2 * n + w) := by
    rw [hword, ofNat_sub_readerUnit (by omega)]
    congr 1
    omega
  have hlast : l.word ≠ readerUnit := by
    rw [hword, readerUnit, show (2 : Int32) = Int32.ofNat 2 from rfl, Ne,
      Word.ofNat_inj (by omega) (by omega)]
    omega
  rw [unlockRead, hinside, withdraw, hleft, if_neg hlast]
  rfl

theorem ofNat_succ_sub_writerBit (n : Nat) :
    Int32.ofNat (n + 1) + -writerBit = Int32.ofNat n := by
  have hone : writerBit = Int32.ofNat 1 := rfl
  rw [Int32.ofNat_add, hone]
  grind

theorem word_unlockWrite (l : TicketLock) : l.unlockWrite.lock.word = l.word - writerBit := by
  simp only [unlockWrite]
  split
  · split <;> rfl
  · rfl

theorem unlockWrite_of_inside (hinside : l.writerInside = true) :
    l.unlockWrite.result = .ok .done := by
  simp only [unlockWrite, hinside, ↓reduceIte]
  split <;> rfl

end Requests

/-- Only readers are inside, and the word is off by a slip. -/
structure Skewed (δ : Int32) (h : Holds) (l : TicketLock) : Prop where
  readersOnly : h.writes = 0
  few : h.reads < 2 ^ 30
  word : l.word = Int32.ofNat (2 * h.reads) + δ

/-- A claim too many lets all readers leave, and a writer that is not there all but the last. -/
def Lets (δ : Int32) (leaving reads : Nat) : Prop :=
  δ = readerUnit ∨ δ = -writerBit ∧ leaving < reads

section Leaving

variable {δ : Int32} {h : Holds} {l : TicketLock} {s t u : Situation TicketLock Wait}
  {move : Situation.Move TicketLock Wait Fault}
  {moves : List (Situation.Move TicketLock Wait Fault)}

theorem Skewed.unlockRead (hk : Skewed δ h l) (hpos : 0 < h.reads) (hlets : Lets δ 1 h.reads) :
    l.unlockRead = .done .done { l with word := Int32.ofNat (2 * (h.reads - 1)) + δ } := by
  have hfew := hk.few
  rcases hlets with rfl | ⟨rfl, hmore⟩
  · have hword : l.word = Int32.ofNat (2 * (h.reads + 1) + 0) :=
      hk.word.trans (ofNat_add_readerUnit _)
    have hrest : 2 * (h.reads - 1) + 2 = 2 * h.reads := by omega
    rw [unlockRead_of_others hword (by omega) hfew hpos, ofNat_add_readerUnit, hrest]
    rfl
  · obtain ⟨n, hn⟩ : ∃ n, h.reads = n + 2 := ⟨h.reads - 2, by omega⟩
    have hword : l.word = Int32.ofNat (2 * (n + 1) + 1) := by
      rw [hk.word, hn]
      exact ofNat_succ_sub_writerBit (2 * (n + 1) + 1)
    have hrest : 2 * (n + 2 - 1) = 2 * n + 1 + 1 := by omega
    rw [unlockRead_of_others hword (Nat.le_refl 1) (by omega) (Nat.succ_pos n), hn, hrest,
      ofNat_succ_sub_writerBit]

theorem Skewed.step (hk : Skewed δ s.holds s.calls.lock) (hstep : Situation.Step s move t)
    (hrelease : Situation.Releasing s move t) (hlets : Lets δ 1 s.holds.reads) :
    move.report.answer = .reply .done ∧ t.holds.reads + 1 = s.holds.reads ∧
      t.calls.sleepers.Perm s.calls.sleepers ∧ Skewed δ t.holds t.calls.lock := by
  obtain ⟨m, hd, hpos⟩ := hrelease
  cases m with
  | write => exact absurd hk.readersOnly (Nat.ne_of_gt hpos)
  | read =>
    change 0 < s.holds.reads at hpos
    obtain ⟨sleepers, hp, out, hout, hanswer, hcalls, hholds, -⟩ :=
      hstep.echoes hd (Guarded.converts_of_demand hd rfl)
    change _ = Contended.request (.unlock .read) { s.calls with sleepers } at hout
    rw [Contended.request_of_done (r := .unlock .read) (hk.unlockRead hpos hlets)] at hout
    rw [hout] at hanswer hcalls hholds
    change t.holds = s.holds.release .read at hholds
    have hfew := hk.few
    have hleft : t.holds.reads = s.holds.reads - 1 := congrArg Holds.reads hholds
    refine ⟨hanswer, by omega, ?_, ?_, by omega, ?_⟩
    · rw [hcalls]
      exact hp
    · rw [hholds]
      exact hk.readersOnly
    · rw [hcalls, hleft]

theorem Skewed.run (hrun : Situation.Run Situation.Releasing s moves t)
    (hk : Skewed δ s.holds s.calls.lock) (hlets : Lets δ moves.length s.holds.reads) :
    (∀ move ∈ moves, move.report.answer = .reply .done) ∧
      t.holds.reads + moves.length = s.holds.reads ∧
      t.calls.sleepers.Perm s.calls.sleepers ∧ Skewed δ t.holds t.calls.lock := by
  induction hrun with
  | nil => exact ⟨fun _ hmem ↦ absurd hmem List.not_mem_nil, rfl, .refl _, hk⟩
  | @cons s t u move later hstep hrelease _ ih =>
    rw [List.length_cons] at hlets ⊢
    have hfirst : Lets δ 1 s.holds.reads := hlets.imp_right fun h ↦ ⟨h.1, by omega⟩
    obtain ⟨hdone, hreads, hp, hk'⟩ := hk.step hstep hrelease hfirst
    obtain ⟨hall, hcount, hp', hlast⟩ := ih hk' (hlets.imp_right fun h ↦ ⟨h.1, by omega⟩)
    exact ⟨List.forall_mem_cons.2 ⟨hdone, hall⟩, by omega, hp'.trans hp, hlast⟩

/-- The last reader is taken for the writer. -/
theorem Skewed.last_faults (hk : Skewed (-writerBit) s.holds s.calls.lock)
    (hone : s.holds.reads = 1) (hstep : Situation.Step s move t)
    (hrelease : Situation.Releasing s move t) :
    move.report.answer = .reply (.fault (.notHeld (.release .read))) := by
  obtain ⟨m, hd, hpos⟩ := hrelease
  cases m with
  | write => exact absurd hk.readersOnly (Nat.ne_of_gt hpos)
  | read =>
    obtain ⟨sleepers, -, out, rfl, hanswer, -⟩ :=
      hstep.echoes hd (Guarded.converts_of_demand hd rfl)
    have hword : s.calls.lock.word = Int32.ofNat (2 * 0 + 1) := by
      rw [hk.word, hone]
      rfl
    have hnone : s.calls.lock.readersInside = false :=
      readersInside_of_word hword (Nat.le_refl 1) (by decide)
    have hfault : s.calls.lock.unlockRead.result = .error (.notHeld (.release .read)) := by
      rw [TicketLock.unlockRead, hnone]
      rfl
    exact hanswer.trans (congrArg Guarded.Answer.reply (congrArg Reply.ofAttempt hfault))

theorem writer_leaves (hword : s.calls.lock.word = -1) (hholds : s.holds = ⟨0, 1⟩)
    (hstep : Situation.Step s move t) (hrelease : Situation.Releasing s move t) :
    move.report.answer = .reply .done ∧
      (s.calls.sleepers = [] →
        t.holds = {} ∧ t.calls.sleepers = [] ∧ t.calls.lock.word = -readerUnit) := by
  obtain ⟨m, hd, hpos⟩ := hrelease
  rw [hholds] at hpos
  cases m with
  | read => exact absurd hpos (Nat.lt_irrefl 0)
  | write =>
    obtain ⟨sleepers, hp, out, hout, hanswer, hcalls, hholds', -⟩ :=
      hstep.echoes hd (Guarded.converts_of_demand hd rfl)
    change _ = Contended.request (.unlock .write) { s.calls with sleepers } at hout
    have hresult : s.calls.lock.unlockWrite.result = .ok .done :=
      unlockWrite_of_inside (by rw [writerInside, hword]; rfl)
    have hreply : out.reply = .done := by
      rw [hout]
      exact congrArg Reply.ofAttempt hresult
    refine ⟨hanswer.trans (congrArg Guarded.Answer.reply hreply), fun hnobody ↦ ?_⟩
    obtain rfl : sleepers = [] := (hnobody ▸ hp).eq_nil
    rw [Contended.request_of_alone rfl] at hout
    refine ⟨?_, ?_, ?_⟩
    · rw [hholds', hholds, Outcome.settle, hreply, hout]
      rfl
    · rw [hcalls, hout]
    · rw [hcalls, hout]
      exact (word_unlockWrite _).trans (by rw [hword]; rfl)

end Leaving

section Newcomers

variable {κ : Type} {h : Holds} {c : Contended TicketLock Wait κ}

theorem word_of_slip (hb : Balanced h c) (hm : Modest h c) {r : Request} (hn : ¬ h.Permits r)
    (hzero : c.lock.word + slip r = 0) : c.lock.word = 0 := by
  have hle := hb.writes_le
  have hfew := hm.reads
  cases r with
  | tryLock _ => exact absurd trivial hn
  | upgrade => exact (Int32.add_zero _).symm.trans hzero
  | unlock m =>
    cases m with
    | read =>
      have hr : h.reads = 0 := Nat.eq_zero_of_not_pos hn
      have htwo : c.lock.word = Int32.ofNat 2 := by
        change c.lock.word + -2 = 0 at hzero
        change c.lock.word = 2
        grind
      have := (hb.word_eq_iff hm.reads (by omega)).1 htwo
      omega
    | write =>
      have hw : h.writes = 0 := Nat.eq_zero_of_not_pos hn
      have hone : c.lock.word = Int32.ofNat 1 := by
        change c.lock.word + -1 = 0 at hzero
        change c.lock.word = 1
        grind
      have := (hb.word_eq_iff hm.reads (by omega)).1 hone
      omega
  | downgrade =>
    rw [slip, hb.word, ofNat_add_readerUnit] at hzero
    have := (Word.ofNat_inj (n := 0) (by omega) (by omega)).1 hzero
    omega

/-- Whoever finds the lock open after misuse would have found it open before. -/
theorem tryLock_of_slip (hb : Balanced h c) (hm : Modest h c) {r : Request} (hn : ¬ h.Permits r)
    {m : Mode}
    (hwon : (RawLock.request (F := Fault) (.tryLock m)
      { c.lock with word := c.lock.word + slip r }).result = .ok .done) :
    (RawLock.request (F := Fault) (.tryLock m) c.lock).result = .ok .done := by
  cases m with
  | read =>
    by_cases hq : 0 < h.writes + c.sleeping .write
    · have hqueued : { c.lock with word := c.lock.word + slip r }.queued = true :=
        (hb.queued_eq hm.sleepers).trans (decide_eq_true hq)
      change (TicketLock.tryRead _).result = _ at hwon
      rw [tryRead, hqueued] at hwon
      cases hwon
    · change c.lock.tryRead.result = _
      rw [tryRead_of_free hb hm (Nat.eq_zero_of_not_pos hq)]
      rfl
  | write =>
    by_cases hzero : c.lock.word + slip r = 0
    · change c.lock.tryWrite.result = _
      rw [tryWrite, if_pos (word_of_slip hb hm hn hzero)]
      rfl
    · have hlost : RawLock.request (.tryLock .write) { c.lock with word := c.lock.word + slip r } =
          Step.done (F := Fault) .wouldBlock { c.lock with word := c.lock.word + slip r } :=
        if_neg hzero
      rw [hlost] at hwon
      cases hwon

end Newcomers

section Moves

variable {q : Quotas} {s t u : Situation TicketLock Wait} {r : Request}
  {sleepers : List (Sleeper Caller Wait)}
  {moves releases : List (Situation.Move TicketLock Wait Fault)}

structure Leave (δ : Int32) (s : Situation TicketLock Wait)
    (releases : List (Situation.Move TicketLock Wait Fault)) (t : Situation TicketLock Wait) :
    Prop where
  done : ∀ move ∈ releases, move.report.answer = .reply .done
  alone : s.calls.sleepers = [] → t.holds.total + releases.length = s.holds.total ∧
    t.calls.sleepers = [] ∧
      t.calls.lock.word = Int32.ofNat (2 * t.holds.reads + t.holds.writes) + δ

theorem Sound.leave (hs : Sound s.holds s.calls)
    (hrun : Situation.Run Situation.Releasing s releases t) : Leave 0 s releases t := by
  obtain ⟨hlast, hr⟩ := releasable_sound.run hs hrun
  refine ⟨hr.done, fun hnobody ↦ ?_⟩
  have hconserved := hr.conserved
  have hcount := hr.count
  rw [hnobody] at hconserved hcount
  obtain ⟨-, hmap⟩ := List.append_eq_nil_iff.1 hconserved.eq_nil
  have hnone : t.calls.sleepers = [] := List.map_eq_nil_iff.1 hmap
  rw [hnone] at hcount
  refine ⟨by rw [Nat.add_comm]; exact hcount, hnone, ?_⟩
  rw [hlast.balanced.word, Int32.add_zero]

theorem Skewed.leave {δ : Int32} (hk : Skewed δ s.holds s.calls.lock)
    (hrun : Situation.Run Situation.Releasing s releases t)
    (hlets : Lets δ releases.length s.holds.reads) : Leave δ s releases t := by
  obtain ⟨hdone, hcount, hp, hlast⟩ := hk.run hrun hlets
  refine ⟨hdone, fun hnobody ↦ ⟨?_, (hnobody ▸ hp).eq_nil, ?_⟩⟩
  · rw [Holds.total, Holds.total, hk.readersOnly, hlast.readersOnly]
    exact hcount
  · rw [hlast.readersOnly]
    exact hlast.word

theorem leave_of_read_release (hb : Balanced s.holds s.calls) (hr : s.holds.reads = 0)
    (hcalls : u.calls = ⟨{ s.calls.lock with word := s.calls.lock.word + -readerUnit }, sleepers⟩)
    (hholds : u.holds = s.holds) (hrun : Situation.Run Situation.Releasing u releases t)
    (hle : releases.length ≤ s.holds.total) : Leave (-readerUnit) u releases t := by
  have hwrites := hb.writes_le
  rw [Holds.total, hr] at hle
  cases hrun with
  | nil =>
    refine ⟨fun _ hmem ↦ absurd hmem List.not_mem_nil, fun hnobody ↦ ⟨rfl, hnobody, ?_⟩⟩
    rw [hcalls, hholds]
    exact congrArg (· + _) hb.word
  | @cons _ v _ move later hstep hrelease hlater =>
    rw [List.length_cons] at hle
    -- Only the writer can be inside, and a word of -1 still shows it.
    have hone : s.holds = ⟨0, 1⟩ := by
      rw [← hr, ← show s.holds.writes = 1 by omega]
    have hword : u.calls.lock.word = -1 := by
      rw [hcalls]
      change s.calls.lock.word + _ = _
      rw [hb.word, hone]
      rfl
    obtain ⟨hdone, hfree⟩ := writer_leaves hword (hholds.trans hone) hstep hrelease
    obtain rfl : later = [] := List.eq_nil_of_length_eq_zero (by omega)
    cases hlater
    refine ⟨List.forall_mem_singleton.2 hdone, fun hnobody ↦ ?_⟩
    obtain ⟨hnone, hasleep, hleft⟩ := hfree hnobody
    rw [hnone, hleft, hholds, hone]
    exact ⟨rfl, hasleep, rfl⟩

theorem skewed_of_misuse (hs : Sound s.holds s.calls)
    (hcalls : u.calls = ⟨{ s.calls.lock with word := s.calls.lock.word + slip r }, sleepers⟩)
    (hholds : u.holds = s.holds) (hw : s.holds.writes = 0) :
    Skewed (slip r) u.holds u.calls.lock := by
  refine ⟨by rw [hholds, hw], by rw [hholds]; exact hs.modest.reads, ?_⟩
  rw [hcalls, hholds]
  change s.calls.lock.word + _ = _
  rw [hs.balanced.word, hw]
  rfl

theorem leave_of_misuse (hs : Sound s.holds s.calls) (hn : ¬ s.holds.Permits r)
    (hp : sleepers.Perm s.calls.sleepers)
    (hcalls : u.calls = ⟨{ s.calls.lock with word := s.calls.lock.word + slip r }, sleepers⟩)
    (hholds : u.holds = s.holds) (hrun : Situation.Run Situation.Releasing u releases t)
    (hle : releases.length ≤ s.holds.total)
    (hlast : r = .unlock .write → releases.length < s.holds.total) :
    Leave (slip r) u releases t := by
  have hskewed := skewed_of_misuse hs hcalls hholds
  cases r with
  | tryLock _ => exact absurd trivial hn
  | upgrade =>
    have hsound : Sound u.holds u.calls := by
      rw [hcalls, hholds, slip, Int32.add_zero]
      exact hs.perm hp
    exact hsound.leave hrun
  | unlock m =>
    cases m with
    | read =>
      have hr : s.holds.reads = 0 := Nat.eq_zero_of_not_pos hn
      exact leave_of_read_release hs.balanced hr hcalls hholds hrun hle
    | write =>
      have hw : s.holds.writes = 0 := Nat.eq_zero_of_not_pos hn
      have hmore := hlast rfl
      rw [Holds.total, hw, ← hholds] at hmore
      exact (hskewed hw).leave hrun (.inr ⟨rfl, hmore⟩)
  | downgrade =>
    exact (hskewed (Nat.eq_zero_of_not_pos hn)).leave hrun (.inl rfl)

theorem slip_eq_zero_iff (hn : ¬ s.holds.Permits r) : slip r = 0 ↔ r = .upgrade := by
  cases r with
  | tryLock _ => exact absurd trivial hn
  | unlock m => cases m <;> decide
  | upgrade => decide
  | downgrade => decide

/-- Misuse is told to whoever made it and lets nobody in, but only an upgrade leaves the lock as it
was: any other request leaves the word off by its slip. Those inside can leave all the same, except
that after the release of a missing write the last reader is taken for the writer. -/
theorem misuse_slips (q : Quotas)
    (hrun : Situation.Run Peaceful (Situation.fresh (TicketLock.ofQuotas q).1) moves s)
    {misuse : Situation.Move TicketLock Wait Fault} (hstep : Situation.Step s misuse u)
    (hd : s.guarded.demand? misuse.op = some (.request r)) (hc : misuse.op.converts = false)
    (hn : ¬ s.holds.Permits r) :
    let l := s.calls.lock
    (∃ what, r.misuse? = some what ∧ misuse.report.answer = .reply (.fault (.notHeld what))) ∧
      misuse.report.returned = [] ∧ u.holds = s.holds ∧
      u.calls.sleepers.Perm s.calls.sleepers ∧
      u.calls.lock = { l with word := l.word + slip r } ∧ (slip r = 0 ↔ r = .upgrade) ∧
      (∀ m, (RawLock.request (F := Fault) (.tryLock m) u.calls.lock).result = .ok .done →
        (RawLock.request (F := Fault) (.tryLock m) l).result = .ok .done) ∧
      (∀ releases t, Situation.Run Situation.Releasing u releases t →
        releases.length ≤ s.holds.total →
        (r = .unlock .write → releases.length < s.holds.total) → Leave (slip r) u releases t) ∧
      (r = .unlock .write → ∀ releases t (last : Situation.Move TicketLock Wait Fault) v,
        Situation.Run (F := Fault) Situation.Releasing u releases t →
        releases.length + 1 = s.holds.total → Situation.Step t last v →
        Situation.Releasing t last v →
          last.report.answer = .reply (.fault (.notHeld (.release .read)))) := by
  have hs := Sound.run hrun (sound_fresh q)
  obtain ⟨sleepers, hp, out, hout, hanswer, hcalls, hholds, hreturned⟩ := hstep.echoes hd hc
  obtain ⟨what, hwhat, hfault⟩ := request_of_misuse hs.balanced hs.modest hn
  change _ = Contended.request r { s.calls with sleepers } at hout
  rw [Contended.request_of_fault (c := { s.calls with sleepers }) hfault] at hout
  rw [hout] at hanswer hcalls hholds hreturned
  change u.holds = s.holds at hholds
  refine ⟨⟨what, hwhat, hanswer⟩, hreturned, hholds, ?_, ?_, slip_eq_zero_iff hn, fun m hwon ↦ ?_,
    fun releases t hreleases hle hlast ↦ ?_,
    fun hr releases t last v hreleases hcount hstep' hl ↦ ?_⟩
  · rw [hcalls]
    exact hp
  · rw [hcalls]
  · rw [hcalls] at hwon
    exact tryLock_of_slip hs.balanced hs.modest hn hwon
  · exact leave_of_misuse hs hn hp hcalls hholds hreleases hle hlast
  · subst hr
    have hw : s.holds.writes = 0 := Nat.eq_zero_of_not_pos hn
    have hk := skewed_of_misuse hs hcalls hholds hw
    rw [Holds.total, hw, ← hholds] at hcount
    obtain ⟨-, hreads, -, hk'⟩ := hk.run hreleases (.inr ⟨rfl, by omega⟩)
    exact hk'.last_faults (by omega) hstep' hl

/-- Two readers are inside when a write is released that is not there: one of them can leave, and
the other is told that it is not inside. -/
theorem misuse_slips_of_two :
    ∃ moves s misuse u releases t,
      Situation.Run Peaceful (Situation.fresh (TicketLock.ofQuotas {}).1) moves s ∧
      s.holds = ⟨2, 0⟩ ∧ Situation.Step s misuse u ∧
      misuse.report.answer = .reply (.fault (.notHeld (.release .write))) ∧
      Situation.Run (F := Fault) Situation.Releasing u releases t ∧ releases.length = 1 ∧
      (∀ move ∈ releases, move.report.answer = .reply .done) ∧ t.calls.lock.word = 1 ∧
      ∃ last v, Situation.Step t last v ∧
        last.report.answer = .reply (.fault (Fault.notHeld (.release .read))) := by
  obtain ⟨moves, s, misuse, u, releases, t, last, v, hrun, hholds, hnobody, hstep, hd, hc, hrelease,
      hcount, hleft, hlast, hl⟩ :
      ∃ moves s, ∃ misuse : Situation.Move TicketLock Wait Fault, ∃ u releases t,
        ∃ last : Situation.Move TicketLock Wait Fault, ∃ v,
        Situation.Run Peaceful (Situation.fresh (TicketLock.ofQuotas {}).1) moves s ∧
        s.holds = ⟨2, 0⟩ ∧ u.calls.sleepers = [] ∧ Situation.Step s misuse u ∧
        s.guarded.demand? misuse.op = some (.request (.unlock .write)) ∧
        misuse.op.converts = false ∧
        Situation.Run (F := Fault) Situation.Releasing u releases t ∧ releases.length = 1 ∧
        t.holds = ⟨1, 0⟩ ∧ Situation.Step t last v ∧ Situation.Releasing t last v :=
    ⟨_, _, _, _, _, _, _, _,
      .cons (.intro (.request (.tryLock .read)) (.refl _) rfl) ⟨rfl, by decide, by decide⟩ <|
      .cons (.intro (.lock .read "first") (.refl _) rfl) ⟨rfl, by decide, by decide⟩ <|
      .nil _, rfl, rfl,
      .intro (.request (.unlock .write)) (.refl _) rfl, rfl, rfl,
      .cons (.intro (.request (.unlock .read)) (.refl _) rfl) ⟨.read, rfl, by decide⟩ (.nil _),
      rfl, rfl, .intro (.request (.unlock .read)) (.refl _) rfl, .read, rfl, by decide⟩
  have hn : ¬ s.holds.Permits (.unlock .write) := by
    rw [hholds]
    exact Nat.lt_irrefl 0
  obtain ⟨⟨what, hwhat, hanswer⟩, -, -, -, -, -, -, hleave, hend⟩ :=
    misuse_slips {} hrun hstep hd hc hn
  cases hwhat
  have hleave' := hleave releases t hrelease (by rw [hcount, hholds]; decide)
    fun _ ↦ by rw [hcount, hholds]; decide
  obtain ⟨-, -, hword⟩ := hleave'.alone hnobody
  rw [hleft] at hword
  exact ⟨moves, s, misuse, u, releases, t, hrun, hholds, hstep, hanswer, hrelease, hcount,
    hleave'.done, hword, last, v, hlast,
    hend rfl releases t last v hrelease (by rw [hcount, hholds]; rfl) hlast hl⟩

/-- A read is released that is not there, and the word is off by a reader: the next reader brings it
back to zero, and a writer comes in beside it. Without the misuse the writer is refused. -/
theorem writer_beside_reader :
    ∃ misuse u moves t,
      Situation.Step (Situation.fresh (TicketLock.ofQuotas {}).1) misuse u ∧
      misuse.op = .request (.unlock .read) ∧
      misuse.report.answer = .reply (.fault (Fault.notHeld (.release .read))) ∧
      Situation.Run Peaceful u moves t ∧
      moves.map (·.op) = [.request (.tryLock .read), .request (.tryLock .write)] ∧
      t.holds = ⟨1, 1⟩ ∧
      ∃ moves' t', Situation.Run Peaceful (Situation.fresh (TicketLock.ofQuotas {}).1) moves' t' ∧
        moves'.map (·.op) = moves.map (·.op) ∧ t'.holds = ⟨1, 0⟩ :=
  ⟨_, _, _, _, .intro (.request (.unlock .read)) (.refl _) rfl, rfl, rfl,
    .cons (.intro (.request (.tryLock .read)) (.refl _) rfl) ⟨rfl, by decide, by decide⟩ <|
    .cons (.intro (.request (.tryLock .write)) (.refl _) rfl) ⟨rfl, by decide, by decide⟩ <|
    .nil _, rfl, rfl, _, _,
    .cons (.intro (.request (.tryLock .read)) (.refl _) rfl) ⟨rfl, by decide, by decide⟩ <|
    .cons (.intro (.request (.tryLock .write)) (.refl _) rfl) ⟨rfl, by decide, by decide⟩ <|
    .nil _, rfl, rfl⟩

end Moves

end TicketLock

end SyncKit
