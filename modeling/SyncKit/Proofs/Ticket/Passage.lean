import SyncKit.Proofs.Ticket.Peace

namespace SyncKit.TicketLock

variable {κ : Type}

structure Passage (κ : Type) where
  demand : Option (Demand κ)
  holds : Holds
  calls : Contended TicketLock Wait κ
  returned : List (Returned κ Fault)
  writeGrants : Nat
  holdsAfter : Holds
  callsAfter : Contended TicketLock Wait κ

namespace Passage

def ofOutcome (h : Holds) (c : Contended TicketLock Wait κ) (d : Demand κ)
    (out : Outcome TicketLock Wait Fault κ) : Passage κ :=
  ⟨some d, h, c, out.returned, out.writeGrants d, out.settle d h, out.after⟩

def ofMove (s : Situation TicketLock Wait) (move : Situation.Move TicketLock Wait Fault)
    (t : Situation TicketLock Wait) : Passage Caller :=
  ⟨s.guarded.demand? move.op, s.holds, s.calls, move.report.returned, move.writeGrants, t.holds,
    t.calls⟩

def EndsWrite (p : Passage κ) : Prop :=
  p.demand = some (.request (.unlock .write)) ∨ p.demand = some (.request .downgrade)

structure Quiet (p : Passage κ) : Prop where
  quota : p.callsAfter.lock.writeQuota = p.calls.lock.writeQuota
  granted : p.callsAfter.lock.granted = p.calls.lock.granted
  grants : p.writeGrants = 0
  returned : p.returned = []
  stay : ∀ s ∈ p.calls.sleepers, s ∈ p.callsAfter.sleepers
  waits : 0 < p.calls.sleeping .read → ¬ p.EndsWrite ∧ p.holdsAfter.writes = p.holds.writes

/-- Somebody becomes the writer. When that is straight after another writer, the sleeping readers
are not due yet. -/
structure Wrote (p : Passage κ) : Prop where
  quota : p.callsAfter.lock.writeQuota = p.calls.lock.writeQuota
  granted : p.callsAfter.lock.granted = p.calls.lock.granted + 1
  grants : p.writeGrants = 1
  returned : ∀ r ∈ p.returned, r.mode = .write
  stay : ∀ s ∈ p.calls.sleepers, s.mode = .read → s ∈ p.callsAfter.sleepers
  writes : p.holdsAfter.writes = 1
  unspent : p.holds.writes = 1 → 0 < p.calls.sleeping .read →
    p.calls.lock.granted < p.calls.lock.writeQuota

structure Cleared (p : Passage κ) : Prop where
  quota : p.callsAfter.lock.writeQuota = p.calls.lock.writeQuota
  granted : p.callsAfter.lock.granted = 0
  grants : p.writeGrants = 0
  returned : p.returned.Perm ((p.calls.sleepers.filter (·.mode == .read)).map Sleeper.granted)
  waited : 0 < p.calls.sleeping .read
  ends : p.EndsWrite

def Regular (p : Passage κ) : Prop := p.Quiet ∨ p.Wrote ∨ p.Cleared

theorem Regular.perm {p : Passage κ} {sleepers : List (Sleeper κ Wait)}
    (hp : sleepers.Perm p.calls.sleepers)
    (h : Regular { p with calls := { p.calls with sleepers } }) : p.Regular := by
  have hread : sleepers.countP (·.mode == .read) = p.calls.sleeping .read := hp.countP_eq _
  obtain hquiet | hwrote | hcleared := h
  · refine .inl { hquiet with
      stay := fun s hs ↦ hquiet.stay s (hp.mem_iff.2 hs)
      waits := fun hpos ↦ hquiet.waits ?_ }
    exact Nat.lt_of_lt_of_eq hpos hread.symm
  · refine .inr (.inl { hwrote with
      stay := fun s hs ↦ hwrote.stay s (hp.mem_iff.2 hs)
      unspent := fun hone hpos ↦ hwrote.unspent hone ?_ })
    exact Nat.lt_of_lt_of_eq hpos hread.symm
  · exact .inr (.inr { hcleared with
      returned := hcleared.returned.trans ((hp.filter _).map _)
      waited := Nat.lt_of_lt_of_eq hcleared.waited hread })

section Kinds

variable {h : Holds} {c : Contended TicketLock Wait κ} {r : Request}

theorem writes_met (hw : (Demand.request (κ := κ) r).writes = false)
    (hends : r ≠ .unlock .write ∧ r ≠ .downgrade) :
    (h.met (.request (κ := κ) r)).writes = h.writes := by
  match r with
  | .tryLock .read => rfl
  | .tryLock .write => cases hw
  | .unlock .read => rfl
  | .unlock .write => exact absurd rfl hends.1
  | .upgrade => cases hw
  | .downgrade => exact absurd rfl hends.2

structure Keeps (l : TicketLock) (r : Request) (a : Attempt) (signals : List Signal) : Prop where
  result : (RawLock.request (F := Fault) r l).result = .ok a
  signals : (RawLock.request (F := Fault) r l).signals = signals
  quota : (RawLock.request (F := Fault) r l).lock.writeQuota = l.writeQuota
  granted : (RawLock.request (F := Fault) r l).lock.granted = l.granted

theorem Keeps.of_eq {l l' : TicketLock} {a : Attempt} {signals : List Signal} {notes : List Note}
    (h : RawLock.request (F := Fault) r l = { result := .ok a, lock := l', signals, notes })
    (hquota : l'.writeQuota = l.writeQuota) (hgranted : l'.granted = l.granted) :
    Keeps l r a signals := by
  constructor <;> rw [h]
  · exact hquota
  · exact hgranted

theorem Quiet.of_silent {a : Attempt} (hk : Keeps c.lock r a [])
    (hw : a = .wouldBlock ∨ (Demand.request (κ := κ) r).writes = false)
    (hends : 0 < c.sleeping .read → r ≠ .unlock .write ∧ r ≠ .downgrade) :
    (ofOutcome h c (.request r) (c.request r)).Quiet := by
  rw [Contended.request_of_silent hk.signals, hk.result]
  refine ⟨hk.quota, hk.granted, ?_, rfl, fun _ hmem ↦ hmem, fun hread ↦ ⟨?_, ?_⟩⟩
  · cases a with
    | wouldBlock =>
      change (if (Demand.request (κ := κ) r).writes && false then 1 else 0) + 0 = 0
      rw [Bool.and_false]
      rfl
    | done =>
      have hw := hw.resolve_left nofun
      change (if (Demand.request (κ := κ) r).writes && true then 1 else 0) + 0 = 0
      rw [hw]
      rfl
  · rintro (he | he) <;> cases he
    · exact (hends hread).1 rfl
    · exact (hends hread).2 rfl
  · cases a with
    | wouldBlock => rfl
    | done => exact writes_met (hw.resolve_left nofun) (hends hread)

theorem Quiet.of_refused
    (hstep : RawLock.request r c.lock = Step.done (F := Fault) .wouldBlock c.lock)
    (hends : r ≠ .unlock .write ∧ r ≠ .downgrade) :
    (ofOutcome h c (.request r) (c.request r)).Quiet :=
  .of_silent (.of_eq hstep rfl rfl) (.inl rfl) fun _ ↦ hends

theorem Wrote.of_jump
    (hstep : RawLock.request r c.lock = Step.done (F := Fault) .done c.lock.jumpQueue)
    (hw : (Demand.request (κ := κ) r).writes = true) (hnone : h.writes = 0)
    (hwrites : (h.met (.request (κ := κ) r)).writes = 1) :
    (ofOutcome h c (.request r) (c.request r)).Wrote := by
  rw [Contended.request_of_done hstep]
  refine ⟨rfl, rfl, ?_, nofun, fun _ hmem _ ↦ hmem, hwrites, fun hone ↦ ?_⟩
  · change (if (Demand.request (κ := κ) r).writes && true then 1 else 0) + 0 = 1
    rw [hw]
    rfl
  · exact absurd (hnone.symm.trans hone) Nat.zero_ne_one

theorem Wrote.of_writers {k : Holds} (hk : Keeps c.lock r .done [.all .write])
    (hb : Balanced k ⟨(RawLock.request (F := Fault) r c.lock).lock, c.sleepers⟩)
    (hmet : h.met (.request (κ := κ) r) = k) (hfree : k.reads = 0 ∧ k.writes = 0)
    (hlen : c.sleepers.length < 2 ^ 30) (hpos : 0 < c.sleeping .write)
    (hw : (Demand.request (κ := κ) r).writes = false)
    (hunspent : h.writes = 1 → 0 < c.sleeping .read → c.lock.granted < c.lock.writeQuota) :
    (ofOutcome h c (.request r) (c.request r)).Wrote := by
  obtain ⟨first, hfirst, hreturned, hp, hcount, hsame, -⟩ :=
    hb.settle_writers hfree.1 hfree.2 hlen hpos rfl hk.signals
  change (c.request r).returned = _ at hreturned
  change c.sleepers.Perm (first :: (c.request r).after.sleepers) at hp
  have hmode := mode_of_ticket? hfirst
  have hone : Returned.writers (κ := κ) (F := Fault) [first.granted] = 1 := by
    rw [Returned.writers, List.countP_singleton, Sleeper.granted, hmode]
    rfl
  have hreply : (c.request r).reply = .done := congrArg Reply.ofAttempt hk.result
  have hgranted := hcount.trans (congrArg (· + 1) hk.granted)
  refine ⟨hsame.trans hk.quota, hgranted, ?_, ?_, ?_, ?_, hunspent⟩
  · change Outcome.writeGrants _ _ = 1
    rw [Outcome.writeGrants, hw, hreturned, hone]
    rfl
  · change ∀ r' ∈ (c.request r).returned, _
    rw [hreturned]
    exact List.forall_mem_singleton.2 hmode
  · intro s hmem hread
    rcases List.mem_cons.1 (hp.mem_iff.1 hmem) with rfl | hstay
    · cases hread.symm.trans hmode
    · exact hstay
  · change (Outcome.settle _ _ _).writes = 1
    rw [Outcome.settle, hreply, hreturned]
    change (h.met (.request (κ := κ) r)).writes + Returned.writers (F := Fault) [first.granted] = 1
    rw [hmet, hfree.2, hone]

theorem Cleared.of_readers {k : Holds} (hk : Keeps c.lock r .done [.all .read])
    (hb : Balanced k ⟨(RawLock.request (F := Fault) r c.lock).lock, c.sleepers⟩)
    (hw : k.writes = 0) (hfew : k.reads + c.sleeping .read ≤ 2 ^ 30)
    (hpos : 0 < c.sleeping .read) (hends : r = .unlock .write ∨ r = .downgrade) :
    (ofOutcome h c (.request r) (c.request r)).Cleared := by
  obtain ⟨readers, hreturned, hreaders, hrest, hp, hcount, hsame, -⟩ :=
    hb.settle_readers hw hfew rfl hk.signals
  change (c.request r).returned = _ at hreturned
  have hfilter : (c.sleepers.filter (·.mode == .read)).Perm readers := by
    refine (hp.filter _).trans (.of_eq ?_)
    rw [List.filter_append, List.filter_eq_self.2 fun s hmem ↦ beq_iff_eq.2 (hreaders s hmem),
      List.filter_eq_nil_iff.2 fun s hmem ↦ by rw [hrest s hmem]; decide, List.append_nil]
  have hne : readers.isEmpty = false := by
    rw [List.isEmpty_eq_false_iff]
    rintro rfl
    rw [Contended.sleeping, List.countP_eq_length_filter, hfilter.length_eq] at hpos
    exact absurd hpos (Nat.lt_irrefl 0)
  rw [hne] at hcount
  have hdemand {r' : Request} (he : r = r') :
      some (Demand.request (κ := κ) r) = some (.request r') := by rw [he]
  refine ⟨hsame.trans hk.quota, hcount, ?_, ?_, hpos, hends.imp hdemand hdemand⟩
  · have hnone : Returned.writers (F := Fault) (readers.map Sleeper.granted) = 0 := by
      rw [Returned.writers, List.countP_map]
      exact List.countP_eq_zero.2 fun s hmem ↦ by
        rw [Function.comp, Sleeper.granted, hreaders s hmem]
        exact Bool.false_ne_true
    change Outcome.writeGrants _ _ = 0
    rw [Outcome.writeGrants, hreturned, hnone]
    obtain rfl | rfl := hends <;> rfl
  · change (c.request r).returned.Perm _
    rw [hreturned]
    exact (hfilter.map _).symm

end Kinds

end Passage

namespace Sound

open Passage

variable {h : Holds} {c : Contended TicketLock Wait κ}

theorem regularTryLock (hs : Sound h c) (m : Mode) :
    (ofOutcome h c (.request (.tryLock m)) (c.request (.tryLock m))).Regular := by
  have hb := hs.balanced
  cases m with
  | read =>
    left
    by_cases hq : 0 < h.writes + c.sleeping .write
    · exact .of_refused (tryRead_of_queued hb hs.modest hq) ⟨nofun, nofun⟩
    · have hk : Keeps c.lock (.tryLock .read) .done [] :=
        .of_eq (tryRead_of_free hb hs.modest (Nat.eq_zero_of_not_pos hq)) rfl rfl
      exact .of_silent hk (.inr rfl) fun _ ↦ ⟨nofun, nofun⟩
  | write =>
    by_cases hzero : c.lock.word = 0
    · have hw := ((word_eq_zero_iff hb hs.modest).1 hzero).2
      exact .inr (.inl (.of_jump (if_pos hzero) rfl hw (congrArg (· + 1) hw)))
    · exact .inl (.of_refused (if_neg hzero) ⟨nofun, nofun⟩)

theorem regularUnlockRead (hs : Sound h c) (hpos : 0 < h.reads) :
    (ofOutcome h c (.request (.unlock .read)) (c.request (.unlock .read))).Regular := by
  have hb := hs.balanced
  have hw := hb.writes_eq_zero hpos
  have hstep := unlockRead_of_held hb hs.modest hpos
  have hk : Keeps c.lock (.unlock .read) .done
      (if h.reads = 1 ∧ 0 < c.sleeping .write then [.all .write] else []) := .of_eq hstep rfl rfl
  have hleft := balanced_unlockRead hb hs.modest hpos
  split at hk
  · next hlast =>
    have hfree : (h.release .read).reads = 0 ∧ (h.release .read).writes = 0 :=
      ⟨Nat.sub_eq_zero_of_le (Nat.le_of_eq hlast.1), hw⟩
    exact .inr (.inl (.of_writers hk hleft rfl hfree hs.modest.sleepers hlast.2 rfl
      fun hone ↦ absurd (hw.symm.trans hone) Nat.zero_ne_one))
  · exact .inl (.of_silent hk (.inr rfl) fun _ ↦ ⟨nofun, nofun⟩)

theorem regularUnlockWrite (hs : Sound h c) (hw : h.writes = 1) :
    (ofOutcome h c (.request (.unlock .write)) (c.request (.unlock .write))).Regular := by
  have hb := hs.balanced
  have hle := c.sleeping_le .read
  have hlen := hs.modest.sleepers
  obtain ⟨hresult, hlock, hsignals⟩ := unlockWrite_of_held hb hs.modest hw
  have hquota : c.lock.unlockWrite.lock.writeQuota = c.lock.writeQuota := by rw [hlock]
  have hgranted : c.lock.unlockWrite.lock.granted = c.lock.granted := by rw [hlock]
  have hk : Keeps c.lock (.unlock .write) .done c.lock.unlockWrite.signals :=
    ⟨hresult, rfl, hquota, hgranted⟩
  have hleft := balanced_unlockWrite hb hs.modest hw
  have hrelease := release_write_eq hb hw
  rw [hrelease] at hleft
  rw [hsignals] at hk
  split at hk
  · next hdue =>
    have hfew : 0 + c.sleeping .read ≤ 2 ^ 30 := by omega
    exact .inr (.inr (.of_readers hk hleft rfl hfew hdue.2 (.inl rfl)))
  · next hdue =>
    split at hk
    · next hpos =>
      refine .inr (.inl (.of_writers hk hleft hrelease ⟨rfl, rfl⟩ hlen hpos rfl fun _ hread ↦ ?_))
      rw [Int32.lt_iff_toInt_lt, ← Int.not_le, ← Int32.le_iff_toInt_le]
      exact fun hspent ↦ hdue ⟨.inl hspent, hread⟩
    · next hnone =>
      refine .inl (.of_silent hk (.inr rfl) fun hread ↦ ?_)
      exact absurd ⟨.inr (Nat.eq_zero_of_not_pos hnone), hread⟩ hdue

theorem regularUpgrade (hs : Sound h c) (hpos : 0 < h.reads) :
    (ofOutcome h c (.request .upgrade) (c.request .upgrade)).Regular := by
  have hw := hs.balanced.writes_eq_zero hpos
  by_cases hr : h.reads = 1
  · exact .inr (.inl (.of_jump (upgrade_of_alone hs.balanced hr hw) rfl hw (congrArg (· + 1) hw)))
  · exact .inl (.of_refused (upgrade_of_shared hs.balanced hs.modest (by omega)) ⟨nofun, nofun⟩)

theorem regularDowngrade (hs : Sound h c) (hw : h.writes = 1) :
    (ofOutcome h c (.request .downgrade) (c.request .downgrade)).Regular := by
  have hb := hs.balanced
  have hle := c.sleeping_le .read
  have hlen := hs.modest.sleepers
  have hstep := downgrade_of_held hb hw
  have hk : Keeps c.lock .downgrade .done (if 0 < c.sleeping .read then [.all .read] else []) :=
    .of_eq hstep rfl rfl
  have hleft := balanced_downgrade hb hw
  rw [release_write_eq hb hw] at hleft
  split at hk
  · next hread =>
    have hfew : 1 + c.sleeping .read ≤ 2 ^ 30 := by omega
    exact .inr (.inr (.of_readers hk hleft rfl hfew hread (.inr rfl)))
  · next hnone => exact .inl (.of_silent hk (.inr rfl) fun hread ↦ absurd hread hnone)

theorem regularRequest (hs : Sound h c) (r : Request) (hf : (c.request r).faultless = true) :
    (ofOutcome h c (.request r) (c.request r)).Regular := by
  have hheld := permits_of_faultless hs hf
  have hle := hs.balanced.writes_le
  match r with
  | .tryLock m => exact hs.regularTryLock m
  | .unlock .read => exact hs.regularUnlockRead hheld
  | .unlock .write => exact hs.regularUnlockWrite (Nat.le_antisymm hle hheld)
  | .upgrade => exact hs.regularUpgrade hheld
  | .downgrade => exact hs.regularDowngrade (Nat.le_antisymm hle hheld)

theorem regularCall (hs : Sound h c) (caller : κ) (m : Mode) :
    (ofOutcome h c (.call caller m) (c.call caller m)).Regular := by
  have hb := hs.balanced
  have hends {p : Passage κ} (hd : p.demand = some (.call caller m)) : ¬ p.EndsWrite := by
    rintro (he | he) <;> cases hd.symm.trans he
  cases m with
  | read =>
    left
    by_cases hq : 0 < h.writes + c.sleeping .write
    · obtain ⟨n, notes, -, henter⟩ := enter_read_of_queued hb hs.modest hq
      rw [Contended.call_of_refused (m := .read) caller (tryRead_of_queued hb hs.modest hq) henter]
      exact ⟨rfl, rfl, rfl, rfl, fun _ hmem ↦ List.mem_append_left _ hmem, fun _ ↦ ⟨hends rfl, rfl⟩⟩
    · obtain ⟨spins, -, hcall⟩ := Contended.call_of_won (c := c) (m := .read) caller hb.spins
        (tryRead_of_free hb hs.modest (Nat.eq_zero_of_not_pos hq))
      rw [hcall]
      exact ⟨rfl, rfl, rfl, rfl, fun _ hmem ↦ hmem, fun _ ↦ ⟨hends rfl, rfl⟩⟩
  | write =>
    by_cases hzero : c.lock.word = 0
    · have hw := ((word_eq_zero_iff hb hs.modest).1 hzero).2
      have htry : RawLock.request (.tryLock .write) c.lock =
          Step.done (F := Fault) .done c.lock.jumpQueue := if_pos hzero
      obtain ⟨spins, -, hcall⟩ := Contended.call_of_won caller hb.spins htry
      rw [hcall]
      exact .inr (.inl ⟨rfl, rfl, rfl, nofun, fun _ hmem _ ↦ hmem, congrArg (· + 1) hw,
        fun hone ↦ absurd (hw.symm.trans hone) Nat.zero_ne_one⟩)
    · obtain ⟨wait, notes, -, -, henter⟩ := enter_write_of_busy hb hs.modest hzero
      rw [Contended.call_of_refused (m := .write) caller (if_neg hzero) henter]
      exact .inl ⟨rfl, rfl, rfl, rfl, fun _ hmem ↦ List.mem_append_left _ hmem,
        fun _ ↦ ⟨hends rfl, rfl⟩⟩

theorem regular (hs : Sound h c) (d : Demand κ) (hf : (c.serve d).faultless = true) :
    (ofOutcome h c d (c.serve d)).Regular := by
  cases d with
  | call caller m => exact hs.regularCall caller m
  | request r => exact hs.regularRequest r hf

theorem step_regular {s t : Situation TicketLock Wait}
    {move : Situation.Move TicketLock Wait Fault} (hs : Sound s.holds s.calls)
    (hstep : Situation.Step s move t) (hpeace : Peaceful s move t) :
    (ofMove s move t).Regular := by
  obtain ⟨sleepers, hp, ⟨hd, hcalls, hholds, hreturned, hmet⟩ |
    ⟨d, out, hd, hout, hf, hcalls, hholds, hreturned, hmet⟩⟩ := hstep.serves hpeace.faultless
  · refine .inl ⟨?_, ?_, Situation.Move.writeGrants_of_denied hmet hreturned, hreturned, ?_, ?_⟩
    · exact congrArg (·.lock.writeQuota) hcalls
    · exact congrArg (·.lock.granted) hcalls
    · intro x hmem
      change x ∈ t.calls.sleepers
      rw [hcalls]
      exact hp.mem_iff.2 hmem
    · refine fun _ ↦ ⟨?_, congrArg Holds.writes hholds⟩
      rintro (he | he) <;> cases hd.symm.trans he
  · subst hout
    have hregular := (hs.perm hp).regular d hf
    refine Regular.perm (p := ofMove s move t) hp ?_
    rw [ofMove, hd, hcalls, hholds, hreturned,
      Situation.Move.writeGrants_of_demand hd hmet hreturned]
    exact hregular

end Sound

end SyncKit.TicketLock
