import SyncKit.Proofs.Ticket.Handover

namespace SyncKit.TicketLock

variable {κ : Type}

/-- Nobody sleeps without a reason: a writer waits for a grant that is out, and a reader waits for
a writer. -/
structure Awake (h : Holds) (c : Contended TicketLock Wait κ) : Prop where
  writers : 0 < c.sleeping .write → 0 < h.total
  readers : 0 < c.sleeping .read → 0 < h.writes + c.sleeping .write

structure Sound (h : Holds) (c : Contended TicketLock Wait κ) : Prop where
  balanced : Balanced h c
  awake : Awake h c
  modest : Modest h c

/-- What became of the sleepers once some of them were woken: each left with the lock or sleeps on
where it did. No two of those that left are writers. -/
structure Handover (h : Holds) (sleepers : List (Sleeper κ Wait))
    (returned : List (Returned κ Fault)) (after : Contended TicketLock Wait κ) : Prop where
  balanced : Balanced (Returned.welcome returned h) after
  awake : Awake (Returned.welcome returned h) after
  left : ∃ gone, returned = gone.map Sleeper.granted ∧ sleepers.Perm (gone ++ after.sleepers) ∧
    gone.countP (·.mode == .write) ≤ 1

theorem welcome_map_granted (ws : List (Sleeper κ Wait)) (h : Holds) :
    Returned.welcome (F := Fault) (ws.map Sleeper.granted) h =
      ⟨h.reads + ws.countP (·.mode == .read), h.writes + ws.countP (·.mode == .write)⟩ := by
  simp only [Returned.welcome, List.countP_map]
  rfl

theorem all_granted (ws : List (Sleeper κ Wait)) :
    (ws.map (Sleeper.granted (F := Fault))).all (·.granted) = true := by
  rw [List.all_map, List.all_eq_true]
  exact fun _ _ ↦ rfl

namespace Handover

variable {h : Holds} {sleepers : List (Sleeper κ Wait)} {returned : List (Returned κ Fault)}
  {after : Contended TicketLock Wait κ} {α : Type} {step : Step TicketLock Fault α}

theorem granted (ho : Handover h sleepers returned after) :
    returned.all (·.granted) = true := by
  obtain ⟨gone, rfl, -⟩ := ho.left
  exact all_granted gone

theorem conserved (ho : Handover h sleepers returned after) :
    (returned ++ after.sleepers.map Sleeper.granted).Perm (sleepers.map Sleeper.granted) := by
  obtain ⟨gone, rfl, hp, -⟩ := ho.left
  rw [← List.map_append]
  exact (hp.map Sleeper.granted).symm

theorem nobody (hb : Balanced h after) (ha : Awake h after) :
    Handover h after.sleepers [] after :=
  ⟨hb, ha, [], rfl, .refl _, Nat.zero_le 1⟩

theorem of_silent (hb : Balanced h ⟨step.lock, sleepers⟩) (ha : Awake h ⟨step.lock, sleepers⟩)
    (hs : step.signals = []) :
    let run := Contended.settle step sleepers
    Handover h sleepers run.returned ⟨run.lock, run.asleep⟩ := by
  simp only [Contended.settle_of_silent hs]
  exact .nobody hb ha

theorem of_readers (hb : Balanced h ⟨step.lock, sleepers⟩) (hw : h.writes = 0)
    (hr : h.reads + sleepers.countP (·.mode == .read) ≤ 2 ^ 30)
    (hpos : 0 < h.reads + sleepers.countP (·.mode == .read)) (hs : step.signals = [.all .read]) :
    let run := Contended.settle step sleepers
    Handover h sleepers run.returned ⟨run.lock, run.asleep⟩ := by
  obtain ⟨readers, hreturned, hreaders, hrest, hp, -, -, hbal⟩ := hb.settle_readers hw hr rfl hs
  have hread : sleepers.countP (·.mode == .read) = readers.length := by
    rw [hp.countP_eq, List.countP_append, countP_of_mode hreaders, countP_of_mode hrest]
    rfl
  have hwelcome : Returned.welcome (Contended.settle step sleepers).returned h =
      ⟨h.reads + readers.length, 0⟩ := by
    rw [hreturned, welcome_map_granted, countP_of_mode hreaders, countP_of_mode hreaders, hw]
    rfl
  refine ⟨by rwa [hwelcome], ?_, readers, hreturned, hp, ?_⟩
  · rw [hwelcome]
    refine ⟨fun _ ↦ by rwa [← hread], fun hpos ↦ ?_⟩
    rw [Contended.sleeping, countP_of_mode hrest] at hpos
    exact absurd hpos (Nat.lt_irrefl 0)
  · rw [countP_of_mode hreaders]
    exact Nat.zero_le 1

theorem of_writers (hb : Balanced h ⟨step.lock, sleepers⟩) (hr : h.reads = 0) (hw : h.writes = 0)
    (hlen : sleepers.length < 2 ^ 30) (hpos : 0 < sleepers.countP (·.mode == .write))
    (hs : step.signals = [.all .write]) :
    let run := Contended.settle step sleepers
    Handover h sleepers run.returned ⟨run.lock, run.asleep⟩ := by
  obtain ⟨first, hfirst, hreturned, hp, -, -, hbal⟩ := hb.settle_writers hr hw hlen hpos rfl hs
  have hmode := mode_of_ticket? hfirst
  have hwelcome : Returned.welcome (Contended.settle step sleepers).returned h = ⟨0, 1⟩ := by
    rw [hreturned]
    change Returned.welcome ([first].map Sleeper.granted) h = _
    rw [welcome_map_granted, List.countP_singleton, List.countP_singleton, hmode, hr, hw]
    rfl
  refine ⟨by rwa [hwelcome], ?_, [first], hreturned, hp, List.countP_le_length⟩
  rw [hwelcome]
  exact ⟨fun _ ↦ Nat.one_pos, fun _ ↦ Nat.lt_of_lt_of_le Nat.one_pos (Nat.le_add_right _ _)⟩

end Handover

section Steps

variable {h : Holds} {c : Contended TicketLock Wait κ}

theorem tryRead_of_queued (hb : Balanced h c) (hm : Modest h c)
    (hq : 0 < h.writes + c.sleeping .write) : c.lock.tryRead = .done .wouldBlock c.lock := by
  rw [tryRead, hb.queued_eq hm.sleepers, decide_eq_true hq]
  rfl

theorem tryRead_of_free (hb : Balanced h c) (hm : Modest h c)
    (hq : h.writes + c.sleeping .write = 0) :
    c.lock.tryRead = .done .done { c.lock with word := Int32.ofNat (2 * (h.reads + 1)) } := by
  have hw : h.writes = 0 := by omega
  have hclaim : c.lock.word + readerUnit = Int32.ofNat (2 * (h.reads + 1)) := by
    rw [hb.word, hw, ofNat_add_readerUnit]
    rfl
  rw [tryRead, hb.queued_eq hm.sleepers, hb.writerInside_eq, hclaim, hq, hw]
  rfl

theorem word_eq_zero_iff (hb : Balanced h c) (hm : Modest h c) :
    c.lock.word = 0 ↔ h.reads = 0 ∧ h.writes = 0 := by
  refine (hb.word_eq_iff hm.reads (n := 0) (by omega)).trans ?_
  omega

theorem unlockRead_of_held (hb : Balanced h c) (hm : Modest h c) (hpos : 0 < h.reads) :
    c.lock.unlockRead =
      { result := .ok .done
        lock := { c.lock with word := Int32.ofNat (2 * (h.reads - 1)) }
        signals := if h.reads = 1 ∧ 0 < c.sleeping .write then [.all .write] else [] } := by
  have hw := hb.writes_eq_zero hpos
  have hleft : c.lock.word - readerUnit = Int32.ofNat (2 * (h.reads - 1)) := by
    rw [hb.word, hw, ofNat_sub_readerUnit (by omega)]
    congr 1
    omega
  have hlast : c.lock.word = readerUnit ↔ h.reads = 1 := by
    refine (hb.word_eq_iff hm.reads (n := 2) (by omega)).trans ?_
    omega
  have hqueued := hb.queued_eq hm.sleepers
  rw [hw, Nat.zero_add] at hqueued
  have hsignals : (if c.lock.word = readerUnit then
        { c.lock with word := Int32.ofNat (2 * (h.reads - 1)) }.wakeWriters else []) =
      if h.reads = 1 ∧ 0 < c.sleeping .write then [.all .write] else [] := by
    change (if c.lock.word = readerUnit then
      if c.lock.queued then [Signal.all .write] else [] else []) = _
    by_cases hone : h.reads = 1 <;> simp [hqueued, hlast, hone]
  rw [unlockRead, hb.readersInside_eq hm.reads, decide_eq_true hpos, withdraw, hleft]
  dsimp only
  rw [hsignals]
  rfl

theorem unlockRead_of_not_held (hb : Balanced h c) (hm : Modest h c) (hzero : h.reads = 0) :
    c.lock.unlockRead =
      .fault (.notHeld (.release .read)) { c.lock with word := c.lock.word - readerUnit } := by
  rw [unlockRead, hb.readersInside_eq hm.reads, hzero]
  rfl

theorem unlockWrite_of_held (hb : Balanced h c) (hm : Modest h c) (hw : h.writes = 1) :
    let step := c.lock.unlockWrite
    step.result = .ok .done ∧
      step.lock =
        { c.lock with word := Int32.ofNat (2 * 0), completions := c.lock.completions + 1 } ∧
      step.signals =
        if (c.lock.writeQuota ≤ c.lock.granted ∨ c.sleeping .write = 0) ∧ 0 < c.sleeping .read then
          [.all .read]
        else if 0 < c.sleeping .write then [.all .write] else [] := by
  have hr := hb.reads_eq_zero hw
  have hleft : c.lock.word - writerBit = Int32.ofNat (2 * 0) := by
    rw [hb.word, hr, hw]
    rfl
  have hbal := hb.leaveWrite hw 0
  have hqueued := hbal.queued_eq hm.sleepers
  have hreaders := hbal.readersInside_eq (by decide)
  have hcount : Contended.sleeping (⟨{ c.lock with
      word := Int32.ofNat (2 * 0), completions := c.lock.completions + 1 }, c.sleepers⟩ :
        Contended TicketLock Wait κ) .write = c.sleeping .write := rfl
  dsimp only at hqueued hreaders
  simp only [unlockWrite, hb.writerInside_eq, hw, hleft, hqueued, hreaders, wakeWriters,
    hb.waiting_pos_iff, hcount, Nat.zero_add, Nat.lt_irrefl, decide_true, decide_false,
    ↓reduceIte, Bool.or_false, Bool.and_eq_true, Bool.or_eq_true, decide_eq_true_eq,
    Bool.not_eq_true', decide_eq_false_iff_not, Nat.not_lt, Nat.le_zero]
  split <;> exact ⟨rfl, rfl, rfl⟩

theorem unlockWrite_of_not_held (hb : Balanced h c) (hw : h.writes ≠ 1) :
    c.lock.unlockWrite =
      .fault (.notHeld (.release .write)) { c.lock with word := c.lock.word - writerBit } := by
  rw [unlockWrite, hb.writerInside_eq, decide_eq_false hw]
  rfl

theorem upgrade_of_alone (hb : Balanced h c) (hr : h.reads = 1) (hw : h.writes = 0) :
    c.lock.upgrade = .done .done c.lock.jumpQueue := by
  rw [TicketLock.upgrade, if_pos]
  rw [hb.word, hr, hw]
  rfl

theorem upgrade_of_shared (hb : Balanced h c) (hm : Modest h c) (hr : 1 < h.reads) :
    c.lock.upgrade = .done .wouldBlock c.lock := by
  have hw := hb.writes_eq_zero (Nat.lt_trans Nat.one_pos hr)
  have hne : c.lock.word ≠ readerUnit := by
    refine mt (hb.word_eq_iff hm.reads (n := 2) (by omega)).1 ?_
    omega
  rw [TicketLock.upgrade, if_neg hne, hb.writerInside_eq, hb.readersInside_eq hm.reads, hw,
    decide_eq_true (show 0 < h.reads by omega)]
  rfl

theorem upgrade_of_not_held (hb : Balanced h c) (hm : Modest h c) (hr : h.reads = 0) :
    c.lock.upgrade = .fault (.notHeld .upgrade) c.lock := by
  have hne : c.lock.word ≠ readerUnit := by
    have := hb.writes_le
    refine mt (hb.word_eq_iff hm.reads (n := 2) (by omega)).1 ?_
    omega
  rw [TicketLock.upgrade, if_neg hne, hb.readersInside_eq hm.reads, hr]
  simp

theorem downgrade_of_held (hb : Balanced h c) (hw : h.writes = 1) :
    c.lock.downgrade =
      { result := .ok .done
        lock := { c.lock with word := Int32.ofNat (2 * 1), completions := c.lock.completions + 1 }
        signals := if 0 < c.sleeping .read then [.all .read] else [] } := by
  have hr := hb.reads_eq_zero hw
  have hleft : c.lock.word + readerUnit - writerBit = Int32.ofNat (2 * 1) := by
    rw [hb.word, hr, hw]
    rfl
  simp only [TicketLock.downgrade, hb.writerInside_eq, hw, hleft, wakeReaders, hb.waiting_pos_iff,
    decide_true, ↓reduceIte]

theorem downgrade_of_not_held (hb : Balanced h c) (hw : h.writes ≠ 1) :
    c.lock.downgrade =
      .fault (.notHeld .downgrade) { c.lock with word := c.lock.word + readerUnit } := by
  rw [TicketLock.downgrade, hb.writerInside_eq, decide_eq_false hw]
  rfl

theorem release_read_eq (hb : Balanced h c) (hpos : 0 < h.reads) :
    h.release .read = ⟨h.reads - 1, 0⟩ := by
  rw [← hb.writes_eq_zero hpos]
  rfl

theorem release_write_eq (hb : Balanced h c) (hw : h.writes = 1) : h.release .write = ⟨0, 0⟩ := by
  rw [Holds.release, hw, hb.reads_eq_zero hw]

theorem balanced_unlockRead (hb : Balanced h c) (hm : Modest h c) (hpos : 0 < h.reads) :
    Balanced (h.release .read) ⟨c.lock.unlockRead.lock, c.sleepers⟩ := by
  rw [unlockRead_of_held hb hm hpos, release_read_eq hb hpos]
  exact hb.withReads (hb.writes_eq_zero hpos) _

theorem balanced_unlockWrite (hb : Balanced h c) (hm : Modest h c) (hw : h.writes = 1) :
    Balanced (h.release .write) ⟨c.lock.unlockWrite.lock, c.sleepers⟩ := by
  obtain ⟨-, hlock, -⟩ := unlockWrite_of_held hb hm hw
  rw [hlock, release_write_eq hb hw]
  exact hb.leaveWrite hw 0

theorem balanced_downgrade (hb : Balanced h c) (hw : h.writes = 1) :
    Balanced ((h.release .write).take .read) ⟨c.lock.downgrade.lock, c.sleepers⟩ := by
  rw [downgrade_of_held hb hw, release_write_eq hb hw]
  exact hb.leaveWrite hw 1

end Steps

namespace Sound

variable {h : Holds} {c : Contended TicketLock Wait κ}

theorem unlockRead (hs : Sound h c) (hpos : 0 < h.reads) :
    let out := c.request (.unlock .read)
    out.reply = .done ∧ Handover (h.release .read) c.sleepers out.returned out.after := by
  have hb := hs.balanced
  have hstep := unlockRead_of_held hb hs.modest hpos
  have hw := hb.writes_eq_zero hpos
  have hleft := balanced_unlockRead hb hs.modest hpos
  have hresult : c.lock.unlockRead.result = .ok .done := by rw [hstep]
  have hsignals : c.lock.unlockRead.signals =
      if h.reads = 1 ∧ 0 < c.sleeping .write then [.all .write] else [] := by rw [hstep]
  refine ⟨congrArg Reply.ofAttempt hresult, ?_⟩
  by_cases hlast : h.reads = 1 ∧ 0 < c.sleeping .write
  · have hnone : (h.release .read).reads = 0 := Nat.sub_eq_zero_of_le (Nat.le_of_eq hlast.1)
    exact Handover.of_writers hleft hnone hw hs.modest.sleepers hlast.2
      (hsignals.trans (if_pos hlast))
  · refine Handover.of_silent hleft ⟨fun hpos' ↦ ?_, fun hread ↦ ?_⟩ (hsignals.trans (if_neg hlast))
    · change 0 < c.sleeping .write at hpos'
      change 0 < h.reads - 1 + h.writes
      omega
    · exact hs.awake.readers hread

theorem unlockWrite (hs : Sound h c) (hw : h.writes = 1) :
    let out := c.request (.unlock .write)
    out.reply = .done ∧ Handover (h.release .write) c.sleepers out.returned out.after := by
  have hb := hs.balanced
  obtain ⟨hresult, -, hsignals⟩ := unlockWrite_of_held hb hs.modest hw
  have hleft := balanced_unlockWrite hb hs.modest hw
  have hle := c.sleeping_le .read
  have hlen := hs.modest.sleepers
  rw [Contended.sleeping] at hle
  refine ⟨congrArg Reply.ofAttempt hresult, ?_⟩
  rw [release_write_eq hb hw] at hleft ⊢
  split at hsignals
  · next hcond =>
    have hread : 0 < c.sleepers.countP (·.mode == .read) := hcond.2
    exact Handover.of_readers hleft rfl (by dsimp only; omega) (by dsimp only; omega) hsignals
  · next hcond =>
    split at hsignals
    · next hpos => exact Handover.of_writers hleft rfl rfl hlen hpos hsignals
    · next hpos =>
      refine Handover.of_silent hleft ⟨fun hpos' ↦ absurd hpos' hpos, fun hread ↦ ?_⟩ hsignals
      exact absurd ⟨.inr (Nat.eq_zero_of_not_pos hpos), hread⟩ hcond

theorem downgrade (hs : Sound h c) (hw : h.writes = 1) :
    let out := c.request .downgrade
    out.reply = .done ∧
      Handover ((h.release .write).take .read) c.sleepers out.returned out.after := by
  have hb := hs.balanced
  have hstep := downgrade_of_held hb hw
  have hleft := balanced_downgrade hb hw
  have hle := c.sleeping_le .read
  have hlen := hs.modest.sleepers
  rw [Contended.sleeping] at hle
  have hresult : c.lock.downgrade.result = .ok .done := by rw [hstep]
  have hsignals : c.lock.downgrade.signals =
      if 0 < c.sleeping .read then [.all .read] else [] := by rw [hstep]
  refine ⟨congrArg Reply.ofAttempt hresult, ?_⟩
  rw [release_write_eq hb hw] at hleft ⊢
  by_cases hread : 0 < c.sleeping .read
  · exact Handover.of_readers hleft rfl (by simp only [Holds.take]; omega)
      (by simp only [Holds.take]; omega) (hsignals.trans (if_pos hread))
  · refine Handover.of_silent hleft ⟨fun _ ↦ Nat.one_pos, fun hread' ↦ absurd hread' hread⟩
      (hsignals.trans (if_neg hread))

theorem takeWrite (hs : Sound h c) (hw : h.writes = 0) :
    Balanced ⟨0, 1⟩ ⟨c.lock.jumpQueue, c.sleepers⟩ ∧ Awake ⟨0, 1⟩ ⟨c.lock.jumpQueue, c.sleepers⟩ :=
  ⟨hs.balanced.jumpQueue hw, fun _ ↦ Nat.one_pos,
    fun _ ↦ Nat.lt_of_lt_of_le Nat.one_pos (Nat.le_add_right _ _)⟩

theorem takeRead (hs : Sound h c) (hq : h.writes + c.sleeping .write = 0) :
    let c' : Contended TicketLock Wait κ :=
      ⟨{ c.lock with word := Int32.ofNat (2 * (h.reads + 1)) }, c.sleepers⟩
    Balanced (h.take .read) c' ∧ Awake (h.take .read) c' := by
  have hw : h.writes = 0 := by omega
  have htake : h.take .read = ⟨h.reads + 1, 0⟩ := by rw [Holds.take, hw]
  rw [htake]
  refine ⟨hs.balanced.withReads hw _, fun _ ↦ Nat.succ_pos _, fun hread ↦ ?_⟩
  have := hs.awake.readers hread
  omega

theorem request_of_done {h' : Holds} {r : Request} {a : Attempt} {l : TicketLock}
    (hstep : RawLock.request r c.lock = Step.done (F := Fault) a l)
    (hb : Balanced h' ⟨l, c.sleepers⟩) (ha : Awake h' ⟨l, c.sleepers⟩) :
    (c.request r).reply = .ofAttempt (.ok a) ∧
      Handover h' c.sleepers (c.request r).returned (c.request r).after := by
  rw [Contended.request_of_done hstep]
  exact ⟨rfl, .nobody hb ha⟩

theorem tryRead (hs : Sound h c) :
    let out := c.request (.tryLock .read)
    out.reply = .wouldBlock ∧ Handover h c.sleepers out.returned out.after ∨
      out.reply = .done ∧ Handover (h.take .read) c.sleepers out.returned out.after := by
  by_cases hq : 0 < h.writes + c.sleeping .write
  · exact .inl (request_of_done (a := .wouldBlock) (tryRead_of_queued hs.balanced hs.modest hq)
      hs.balanced hs.awake)
  · have hq : h.writes + c.sleeping .write = 0 := Nat.eq_zero_of_not_pos hq
    obtain ⟨hb, ha⟩ := hs.takeRead hq
    exact .inr (request_of_done (a := .done) (tryRead_of_free hs.balanced hs.modest hq) hb ha)

theorem tryWrite (hs : Sound h c) :
    let out := c.request (.tryLock .write)
    out.reply = .wouldBlock ∧ Handover h c.sleepers out.returned out.after ∨
      out.reply = .done ∧ Handover (h.take .write) c.sleepers out.returned out.after := by
  by_cases hzero : c.lock.word = 0
  · obtain ⟨hr, hw⟩ := (word_eq_zero_iff hs.balanced hs.modest).1 hzero
    obtain ⟨hb, ha⟩ := hs.takeWrite hw
    have htake : h.take .write = ⟨0, 1⟩ := by rw [Holds.take, hr, hw]
    rw [htake]
    exact .inr (request_of_done (a := .done) (if_pos hzero) hb ha)
  · exact .inl (request_of_done (a := .wouldBlock) (if_neg hzero) hs.balanced hs.awake)

theorem upgrade (hs : Sound h c) (hpos : 0 < h.reads) :
    let out := c.request .upgrade
    out.reply = .wouldBlock ∧ Handover h c.sleepers out.returned out.after ∨
      out.reply = .done ∧
        Handover ((h.release .read).take .write) c.sleepers out.returned out.after := by
  have hw := hs.balanced.writes_eq_zero hpos
  by_cases hr : h.reads = 1
  · obtain ⟨hb, ha⟩ := hs.takeWrite hw
    have htake : (h.release .read).take .write = ⟨0, 1⟩ := by
      rw [Holds.take, Holds.release, hr, hw]
    rw [htake]
    exact .inr (request_of_done (a := .done) (upgrade_of_alone hs.balanced hr hw) hb ha)
  · exact .inl (request_of_done (a := .wouldBlock)
      (upgrade_of_shared hs.balanced hs.modest (by omega)) hs.balanced hs.awake)

end Sound

end SyncKit.TicketLock
