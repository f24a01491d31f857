import SyncKit.Proofs.Lock.Guarding
import SyncKit.Proofs.Quota.Wakeup
import SyncKit.Proofs.Ticket.Wakeup

namespace SyncKit

namespace TicketLock

variable {κ : Type} {n : Nat} {h : Holds}

theorem Handover.faultless {sleepers : List (Sleeper κ Wait)}
    {out : Outcome TicketLock Wait Fault κ}
    (ho : Handover h sleepers out.returned out.after)
    (hreply : out.reply = .wouldBlock ∨ out.reply = .done) : out.faultless = true := by
  rw [Outcome.faultless, ho.granted]
  rcases hreply with hreply | hreply
  · rw [hreply]
    rfl
  · rw [hreply]
    rfl

theorem Sound.faultless_of_permits {c : Contended TicketLock Wait κ} (hs : Sound h c) {r : Request}
    (hp : h.Permits r) : (c.request (F := Fault) r).faultless = true := by
  match r with
  | .tryLock .read =>
    rcases hs.tryRead with ⟨hreply, ho⟩ | ⟨hreply, ho⟩
    · exact ho.faultless (.inl hreply)
    · exact ho.faultless (.inr hreply)
  | .tryLock .write =>
    rcases hs.tryWrite with ⟨hreply, ho⟩ | ⟨hreply, ho⟩
    · exact ho.faultless (.inl hreply)
    · exact ho.faultless (.inr hreply)
  | .unlock m =>
    obtain ⟨hreply, ho, -⟩ := hs.unlock hp
    exact ho.faultless (.inr hreply)
  | .upgrade =>
    rcases hs.upgrade hp with ⟨hreply, ho⟩ | ⟨hreply, ho⟩
    · exact ho.faultless (.inl hreply)
    · exact ho.faultless (.inr hreply)
  | .downgrade =>
    obtain ⟨hreply, ho⟩ := hs.downgrade (Nat.le_antisymm hs.balanced.writes_le hp)
    exact ho.faultless (.inr hreply)

structure Tended (n : Nat) (h : Holds) (c : Contended TicketLock Wait Caller) : Prop where
  sound : Sound h c
  few : h.reads + c.sleepers.length ≤ n

namespace Tended

variable {c : Contended TicketLock Wait Caller}

theorem faultless (ht : Tended n h c) {d : Demand Caller}
    (hp : ∀ r, d = .request r → h.Permits r) : (c.serve (F := Fault) d).faultless = true := by
  cases d with
  | request r => exact ht.sound.faultless_of_permits (hp r rfl)
  | call caller m =>
    obtain ⟨hreturned, hreply⟩ := ht.sound.call caller m
    change (c.call caller m).faultless = true
    rw [Outcome.faultless, hreturned]
    rcases hreply with ⟨hreply, -⟩ | ⟨hreply, -⟩
    · rw [hreply]
      rfl
    · rw [hreply]
      rfl

theorem certain (ht : Tended n h c) {r : Request} (hp : h.Permits r) (hr : r.certain = true) :
    (c.request (F := Fault) r).reply = .done := by
  cases r with
  | tryLock m => cases hr
  | upgrade => cases hr
  | unlock m => exact (ht.sound.unlock hp).1
  | downgrade => exact (ht.sound.downgrade (Nat.le_antisymm ht.sound.balanced.writes_le hp)).1

theorem serve (ht : Tended n h c) (d : Demand Caller) (hn : n + 1 < 2 ^ 30)
    (hp : ∀ r, d = .request r → h.Permits r) :
    Situation.Conducted (F := Fault) (Tended (n + 1)) h d (c.serve d) := by
  have hf := ht.faultless hp
  obtain ⟨hb, ha⟩ := ht.sound.serve d hf
  have hle := c.reads_settle_le (F := Fault) d h
  have hfew := ht.few
  refine ⟨hf, ?_, ⟨hb, ha, ⟨by omega, by omega⟩⟩, by omega⟩
  rintro r rfl hr
  exact ht.certain (hp r rfl) hr

theorem refuses (ht : Tended n h c) (hpos : 0 < h.reads)
    (hreply : (c.request (F := Fault) .upgrade).reply = .wouldBlock) :
    (c.request (F := Fault) .upgrade).after = c ∧
      (c.request (F := Fault) .upgrade).returned = [] := by
  have hb := ht.sound.balanced
  by_cases hone : h.reads = 1
  · have hstep : RawLock.request .upgrade c.lock = Step.done (F := Fault) .done c.lock.jumpQueue :=
      upgrade_of_alone hb hone (hb.writes_eq_zero hpos)
    rw [Contended.request_of_done hstep] at hreply
    cases hreply
  · have hstep : RawLock.request .upgrade c.lock = Step.done (F := Fault) .wouldBlock c.lock :=
      upgrade_of_shared hb ht.sound.modest (by omega)
    rw [Contended.request_of_done hstep]
    exact ⟨rfl, rfl⟩

end Tended

theorem conducts_tended : Situation.Conducts (F := Fault) Tended where
  perm := fun ht hp ↦ ⟨ht.sound.perm hp, hp.length_eq ▸ ht.few⟩
  later := fun ht ↦ ⟨ht.sound, Nat.le_succ_of_le ht.few⟩
  serve := fun d ht hn hp ↦ ht.serve d hn hp
  refuses := fun ht hpos hreply ↦ ht.refuses hpos hreply
  free := fun ht hfree ↦ ht.sound.sleepers_eq_nil hfree
  destroy := fun ht ↦ destroy_eq_ok_iff ht.sound

theorem minded_fresh (q : Quotas) :
    Situation.Minded Tended 0 (Situation.fresh (W := Wait) (TicketLock.ofQuotas q).1) where
  kept := ⟨sound_fresh q, Nat.le_refl 0⟩
  owned := ⟨rfl, .nil, nofun⟩

end TicketLock

namespace QuotaLock

variable {n : Nat} {h : Holds}

structure Tended (n : Nat) (h : Holds) (c : Contended QuotaLock Mode Caller) : Prop where
  steady : Steady h c
  few : c.lock.granted.toNat + c.sleepers.length ≤ n

namespace Tended

variable {c : Contended QuotaLock Mode Caller}

theorem served (ht : Tended n h c) {d : Demand Caller} (hn : n + 1 < 2 ^ 30)
    (hp : ∀ r, d = .request r → h.Permits r) : Served h c d (c.serve d) := by
  have hfew := ht.few
  have hlen := c.length_serve (F := Fault) d
  have hjoins := (c.serve (F := Fault) d).length_joins_add_le d
  have hgrants : (c.serve (F := Fault) d).grants d ≤
      1 + (c.serve (F := Fault) d).returned.length := by
    rw [Outcome.grants]
    split <;> omega
  rcases ht.steady.serve d (fun _ _ _ ↦ by omega) (by omega) with hserved | ⟨⟨r, hr, hn⟩, -⟩
  · exact hserved
  · exact absurd (hp r hr) hn

theorem certain (ht : Tended n h c) {r : Request} (hp : h.Permits r) (hr : r.certain = true) :
    (c.request (F := Fault) r).reply = .done := by
  cases r with
  | tryLock m => cases hr
  | upgrade => cases hr
  | unlock m => exact (ht.steady.unlock hp).1
  | downgrade =>
    obtain ⟨-, hresult, -⟩ := ht.steady.downgraded hp
    exact congrArg Reply.ofAttempt hresult

theorem serve (ht : Tended n h c) (d : Demand Caller) (hn : n + 1 < 2 ^ 30)
    (hp : ∀ r, d = .request r → h.Permits r) :
    Situation.Conducted (F := Fault) (Tended (n + 1)) h d (c.serve d) := by
  have hserved := ht.served hn hp
  have hfew := ht.few
  have hcounted := hserved.counted
  have hlen := c.length_serve (F := Fault) d
  have hjoins := (c.serve (F := Fault) d).length_joins_add_le d
  refine ⟨hserved.faultless, ?_, hserved.steady, ?_⟩
  · rintro r rfl hr
    exact ht.certain (hp r rfl) hr
  · rw [Outcome.grants, Outcome.unfaulted hserved.faultless, Bool.or_false] at hcounted
    cases hmet : (c.serve (F := Fault) d).reply.met with
    | true =>
      rw [hmet, if_pos rfl] at hjoins
      split at hcounted <;> omega
    | false =>
      rw [hmet, Bool.and_false] at hcounted
      rw [if_neg (by decide)] at hcounted
      omega

theorem refuses (ht : Tended n h c) (hpos : 0 < h.reads)
    (hreply : (c.request (F := Fault) .upgrade).reply = .wouldBlock) :
    (c.request (F := Fault) .upgrade).after = c ∧
      (c.request (F := Fault) .upgrade).returned = [] := by
  obtain ⟨hmode, htotal⟩ := ht.steady.tallied.of_pos_iff.1 (show 0 < h.of .read from hpos)
  by_cases hone : c.lock.active = 1
  · rw [Contended.request_of_done (r := .upgrade) (upgrade_of_alone hmode hone)] at hreply
    cases hreply
  · have hactive := ht.steady.tallied.active_ne_zero htotal
    rw [Contended.request_of_done (r := .upgrade) (upgrade_of_shared hmode hactive hone)]
    exact ⟨rfl, rfl⟩

end Tended

theorem conducts_tended : Situation.Conducts (F := Fault) Tended where
  perm := fun ht hp ↦ ⟨ht.steady.perm hp, hp.length_eq ▸ ht.few⟩
  later := fun ht ↦ ⟨ht.steady, Nat.le_succ_of_le ht.few⟩
  serve := fun d ht hn hp ↦ ht.serve d hn hp
  refuses := fun ht hpos hreply ↦ ht.refuses hpos hreply
  free := fun ht hfree ↦ (ht.steady.idle hfree).2
  destroy := fun ht ↦ ht.steady.destroy_eq_ok_iff

theorem minded_fresh (q : Quotas) :
    Situation.Minded Tended 0 (Situation.fresh (W := Mode) (QuotaLock.ofQuotas q)) where
  kept := ⟨steady_fresh q, Nat.le_refl 0⟩
  owned := ⟨rfl, .nil, nofun⟩

end QuotaLock

/-- Whatever guards do to a lock that nobody else uses, nobody faults, the lock counts the guards
that are alive, and it is idle when none is. -/
theorem guards_never_misuse (q : Quotas) :
    (∀ (moves : List (Situation.Move TicketLock TicketLock.Wait TicketLock.Fault)) s,
      Situation.Run Situation.ByGuards (Situation.fresh (TicketLock.ofQuotas q).1) moves s →
      moves.length < 2 ^ 30 →
        let l := s.calls.lock
        let r := s.guarded.guards.countP (·.mode == .read)
        let w := s.guarded.guards.countP (·.mode == .write)
        Situation.Unmisused moves s ∧ w ≤ 1 ∧ (w = 1 → r = 0) ∧ l.word.toInt = 2 * r + w ∧
          (s.guarded.guards = [] → l.word = 0 ∧ l.requests = l.completions)) ∧
      ∀ (moves : List (Situation.Move QuotaLock Mode QuotaLock.Fault)) s,
        Situation.Run Situation.ByGuards (Situation.fresh (QuotaLock.ofQuotas q)) moves s →
        moves.length < 2 ^ 30 →
          let l := s.calls.lock
          let r := s.guarded.guards.countP (·.mode == .read)
          let w := s.guarded.guards.countP (·.mode == .write)
          Situation.Unmisused moves s ∧ w ≤ 1 ∧ (w = 1 → r = 0) ∧ l.active.toNat = r + w ∧
            (0 < r → l.mode = some .read) ∧ (0 < w → l.mode = some .write) ∧
            (s.guarded.guards = [] → l.active = 0 ∧ l.returnTo = none) := by
  constructor
  · intro moves s hrun hfew
    obtain ⟨hunmisused, hminded⟩ :=
      TicketLock.conducts_tended.unmisused hrun (TicketLock.minded_fresh q) hfew
    obtain ⟨hs, hmany⟩ := hminded.kept
    have hb := hs.balanced
    have hexclusive := hb.exclusive
    have hholds := hminded.owned.holds
    have hword : s.calls.lock.word.toInt = 2 * s.holds.reads + s.holds.writes := by
      rw [hb.word, Int32.toInt_ofNat_of_lt (by omega)]
      omega
    rw [hholds] at hword hexclusive
    simp only [Guard.tally] at hword hexclusive
    refine ⟨hunmisused, by omega, by omega, hword, fun hnone ↦ ?_⟩
    have hfree := hminded.guards_eq_nil.1 hnone
    rw [Holds.total, Nat.add_eq_zero_iff] at hfree
    have hrequests := hb.requests
    rw [Contended.sleeping, hunmisused.idle hnone, hfree.2] at hrequests
    exact ⟨(TicketLock.word_eq_zero_iff hb hs.modest).2 hfree, hrequests.trans (Int32.add_zero _)⟩
  · intro moves s hrun hfew
    obtain ⟨hunmisused, hminded⟩ :=
      QuotaLock.conducts_tended.unmisused hrun (QuotaLock.minded_fresh q) hfew
    have ht := hminded.kept.steady.tallied
    have hfree : s.guarded.guards = [] → s.calls.lock.active = 0 ∧ s.calls.lock.returnTo = none := by
      intro hnone
      have htotal := hminded.guards_eq_nil.1 hnone
      exact ⟨ht.active_eq_zero_iff.2 htotal, ht.returnTo_eq_none htotal⟩
    have halone := ht.alone
    have hexclusive : s.holds.writes = 1 → s.holds.reads = 0 :=
      fun hw ↦ ht.reads_eq_zero (hw ▸ Nat.one_pos)
    have hactive : s.calls.lock.active.toNat = s.holds.reads + s.holds.writes := ht.active
    have hread : 0 < s.holds.reads → s.calls.lock.mode = some .read := ht.mode .read
    have hwrite : 0 < s.holds.writes → s.calls.lock.mode = some .write := ht.mode .write
    rw [hminded.owned.holds] at halone hexclusive hactive hread hwrite
    exact ⟨hunmisused, halone, hexclusive, hactive, hread, hwrite, hfree⟩

/-- A reader waits for a writer, joins it when it has downgraded, and keeps the writer from
upgrading again. Once both are gone the lock can be torn down. -/
theorem guards_never_misuse_two :
    (∃ (moves : List (Situation.Move TicketLock TicketLock.Wait TicketLock.Fault)) (s : _),
      Situation.Run Situation.ByGuards (Situation.fresh (TicketLock.ofQuotas {}).1) moves s ∧
        moves.length = 4 ∧ s.guarded.guards = [⟨"first", .read⟩, ⟨"second", .read⟩] ∧
        (∀ move ∈ moves, move.report.faultless = true) ∧ s.calls.lock.word.toInt = 4) ∧
      ∃ (moves : List (Situation.Move QuotaLock Mode QuotaLock.Fault)) (s : _),
        Situation.Run Situation.ByGuards (Situation.fresh (QuotaLock.ofQuotas {})) moves s ∧
          moves.length = 6 ∧ (s.guarded.perform (F := QuotaLock.Fault) .destroy).answer = .reply .done ∧
          s.calls.lock.active = 0 := by
  obtain ⟨hticket, hquota⟩ := guards_never_misuse {}
  constructor
  · obtain ⟨moves, s, hrun, hlen, hguards⟩ :
        ∃ (moves : List (Situation.Move TicketLock TicketLock.Wait TicketLock.Fault)) (s : _),
          Situation.Run Situation.ByGuards (Situation.fresh (TicketLock.ofQuotas {}).1) moves s ∧
            moves.length = 4 ∧ s.guarded.guards = [⟨"first", .read⟩, ⟨"second", .read⟩] :=
      ⟨_, _,
        .cons (.intro (.acquire "first" .write) (.refl _) rfl) rfl <|
        .cons (.intro (.acquire "second" .read) (.refl _) rfl) rfl <|
        .cons (.intro (.downgrade "first") (.refl _) rfl) rfl <|
        .cons (.intro (.upgrade "first") (.refl _) rfl) rfl <|
        .nil _, rfl, rfl⟩
    obtain ⟨hunmisused, -, -, hword, -⟩ := hticket moves s hrun (by rw [hlen]; decide)
    rw [hguards] at hword
    exact ⟨moves, s, hrun, hlen, hguards, hunmisused.faultless, hword⟩
  · obtain ⟨moves, s, hrun, hlen, hguards⟩ :
        ∃ (moves : List (Situation.Move QuotaLock Mode QuotaLock.Fault)) (s : _),
          Situation.Run Situation.ByGuards (Situation.fresh (QuotaLock.ofQuotas {})) moves s ∧
            moves.length = 6 ∧ s.guarded.guards = [] :=
      ⟨_, _,
        .cons (.intro (.acquire "first" .write) (.refl _) rfl) rfl <|
        .cons (.intro (.acquire "second" .read) (.refl _) rfl) rfl <|
        .cons (.intro (.downgrade "first") (.refl _) rfl) rfl <|
        .cons (.intro (.drop "first") (.refl _) rfl) rfl <|
        .cons (.intro (.upgrade "second") (.refl _) rfl) rfl <|
        .cons (.intro (.drop "second") (.refl _) rfl) rfl <|
        .nil _, rfl, rfl⟩
    obtain ⟨hunmisused, -, -, -, -, -, hfree⟩ := hquota moves s hrun (by rw [hlen]; decide)
    exact ⟨moves, s, hrun, hlen, hunmisused.teardown.2 hguards, (hfree hguards).1⟩

end SyncKit
