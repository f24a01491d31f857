import SyncKit.Proofs.Lock.Owners

namespace SyncKit

namespace Situation

variable {L W F : Type} [Place W] [RawLock L W F]

def ByGuards (_ : Situation L W) (move : Move L W F) (_ : Situation L W) : Prop :=
  move.op.byGuard = true

/-- A permitted demand is served: nobody faults, and a request that cannot be refused is done. -/
structure Conducted (I : Holds → Contended L W Caller → Prop) (h : Holds) (d : Demand Caller)
    (out : Outcome L W F Caller) : Prop where
  faultless : out.faultless = true
  done : ∀ r, d = .request r → r.certain = true → out.reply = .done
  kept : I (out.settle d h) out.after

/-- A property of locks between two operations, after at most `n` of them, with which the lock
serves whatever is permitted. -/
structure Conducts (I : Nat → Holds → Contended L W Caller → Prop) : Prop where
  perm : ∀ {n : Nat} {h : Holds} {c : Contended L W Caller} {sleepers : List (Sleeper Caller W)},
    I n h c → sleepers.Perm c.sleepers → I n h { c with sleepers }
  later : ∀ {n : Nat} {h : Holds} {c : Contended L W Caller}, I n h c → I (n + 1) h c
  serve : ∀ {n : Nat} {h : Holds} {c : Contended L W Caller} (d : Demand Caller), I n h c →
    n + 1 < 2 ^ 30 → (∀ r, d = .request r → h.Permits r) →
      Conducted (F := F) (I (n + 1)) h d (c.serve d)
  refuses : ∀ {n : Nat} {h : Holds} {c : Contended L W Caller}, I n h c → 0 < h.reads →
    (c.request (F := F) .upgrade).reply = .wouldBlock →
      (c.request (F := F) .upgrade).after = c ∧ (c.request (F := F) .upgrade).returned = []
  free : ∀ {n : Nat} {h : Holds} {c : Contended L W Caller}, I n h c → h.total = 0 →
    c.sleepers = []
  destroy : ∀ {n : Nat} {h : Holds} {c : Contended L W Caller}, I n h c →
    (RawLock.destroy (F := F) c.lock = .ok () ↔ h.total = 0 ∧ c.sleepers = [])

variable {I : Nat → Holds → Contended L W Caller → Prop} {n : Nat} {s t : Situation L W}
  {move : Move L W F} {moves : List (Move L W F)}

structure Minded (I : Nat → Holds → Contended L W Caller → Prop) (n : Nat) (s : Situation L W) :
    Prop where
  kept : I n s.holds s.calls
  owned : Guarded.Owned s.holds s.guarded

theorem Conducts.step (hI : Conducts (F := F) I) (hs : Minded I n s) (hstep : Step s move t)
    (hop : ByGuards s move t) (hn : n + 1 < 2 ^ 30) :
    Minded I (n + 1) t ∧ move.report.faultless = true := by
  cases hstep with
  | @intro sleepers g' op hp hg =>
    have hkept : I n s.holds (s.guarded.withSleepers sleepers).calls := hI.perm hs.kept hp
    have hown := hs.owned.perm hp
    cases hd : (s.guarded.withSleepers sleepers).demand? op with
    | none =>
      obtain ⟨rfl, denial, hr⟩ := Guarded.perform_of_demand_eq_none hd hg
      rw [hr]
      refine ⟨⟨?_, ?_⟩, rfl⟩
      · exact hI.later hkept
      · exact hown
    | some d =>
      have hserve := hI.serve d hkept hn fun r hr ↦ hown.permits hop (hr ▸ hd)
      obtain ⟨r, hr, hrel⟩ := Guarded.perform_relays (F := F) hd
      have howned := hown.perform hop hd hserve.faultless hserve.done hr
      have hreply := Outcome.unfaulted hserve.faultless
      have hsettle : r.settle (some d) s.holds =
          ((s.guarded.withSleepers sleepers).calls.serve (F := F) d).settle d s.holds := by
        rw [Guarded.Report.settle, Outcome.settle, hrel.met, hrel.returned hreply]
      rw [hr] at hg ⊢
      cases hg
      have hkept' := hserve.kept
      rw [← hsettle, ← hrel.calls hreply] at hkept'
      exact ⟨⟨hkept', howned⟩, hrel.faultless_eq.trans hserve.faultless⟩

theorem Conducts.run (hI : Conducts (F := F) I) (hrun : Run ByGuards s moves t)
    (hs : Minded I n s) (hfew : n + moves.length < 2 ^ 30) :
    Minded I (n + moves.length) t ∧ ∀ move ∈ moves, move.report.faultless = true := by
  induction hrun generalizing n with
  | nil => exact ⟨hs, fun _ hmem ↦ absurd hmem List.not_mem_nil⟩
  | cons hstep hop _ ih =>
    rw [List.length_cons] at hfew ⊢
    obtain ⟨hnext, hfirst⟩ := hI.step hs hstep hop (by omega)
    obtain ⟨hlast, hlater⟩ := ih hnext (by omega)
    rw [Nat.add_right_comm, Nat.add_assoc] at hlast
    exact ⟨hlast, List.forall_mem_cons.2 ⟨hfirst, hlater⟩⟩

/-- Guards that have the lock to themselves: nobody has faulted, a refused upgrade leaves everything
as it is, nobody sleeps where no guard is alive, and only then can the lock be torn down. -/
structure Unmisused (moves : List (Move L W F)) (s : Situation L W) : Prop where
  faultless : ∀ move ∈ moves, move.report.faultless = true
  refused : ∀ (move : Move L W F) (t : Situation L W), Step s move t →
    move.report.answer = .refused →
      ∃ slot, move.op = .upgrade slot ∧ s.guarded.guard? slot = some ⟨slot, .read⟩ ∧
        t.guarded.guards = s.guarded.guards ∧ t.calls.lock = s.calls.lock ∧
        t.calls.sleepers.Perm s.calls.sleepers ∧ move.report.returned = []
  idle : s.guarded.guards = [] → s.calls.sleepers = []
  teardown : (s.guarded.perform (F := F) .destroy).answer = .reply .done ↔ s.guarded.guards = []

omit [Place W] [RawLock L W F] in
theorem Minded.guards_eq_nil (hs : Minded I n s) :
    s.guarded.guards = [] ↔ s.holds.total = 0 := by
  rw [hs.owned.holds, Guard.total_tally, List.length_eq_zero_iff]

theorem Conducts.refused (hI : Conducts (F := F) I) (hs : Minded I n s) (hstep : Step s move t)
    (hanswer : move.report.answer = .refused) :
    ∃ slot, move.op = .upgrade slot ∧ s.guarded.guard? slot = some ⟨slot, .read⟩ ∧
      t.guarded.guards = s.guarded.guards ∧ t.calls.lock = s.calls.lock ∧
      t.calls.sleepers.Perm s.calls.sleepers ∧ move.report.returned = [] := by
  cases hstep with
  | @intro sleepers g' op hp hg =>
    obtain ⟨slot, rfl, hs', hreply, hr⟩ := Guarded.perform_refused hanswer
    have hkept : I n s.holds (s.guarded.withSleepers sleepers).calls := hI.perm hs.kept hp
    have hpos : 0 < s.holds.reads := by
      rw [hs.owned.holds]
      exact Guard.tally_pos_of_mem (Guarded.guard?_eq_some hs').1
    obtain ⟨hafter, hreturned⟩ := hI.refuses hkept hpos hreply
    rw [hr] at hg ⊢
    cases hg
    refine ⟨slot, rfl, hs', ?_, ?_, ?_, hreturned⟩
    · simp only [Guarded.absorb, hreturned, Guarded.arrivals, List.filterMap_nil, List.append_nil]
      rfl
    · exact (congrArg Contended.lock hafter :)
    · exact .trans (.of_eq (congrArg Contended.sleepers hafter :)) hp

/-- Guards alone never misuse a lock that serves whatever is permitted. -/
theorem Conducts.unmisused (hI : Conducts (F := F) I) (hrun : Run ByGuards s moves t)
    (hs : Minded I 0 s) (hfew : moves.length < 2 ^ 30) :
    Unmisused moves t ∧ Minded I moves.length t := by
  have hzero : 0 + moves.length < 2 ^ 30 := by rwa [Nat.zero_add]
  obtain ⟨hlast, hfaultless⟩ := hI.run hrun hs hzero
  rw [Nat.zero_add] at hlast
  have hidle : t.guarded.guards = [] → t.calls.sleepers = [] :=
    fun hnone ↦ hI.free hlast.kept (hlast.guards_eq_nil.1 hnone)
  refine ⟨⟨hfaultless, fun move u hstep ↦ hI.refused hlast hstep, hidle, ?_⟩, hlast⟩
  obtain ⟨hdone, -⟩ := Guarded.teardown_iff (g := t.guarded) (hI.destroy hlast.kept)
  rw [hdone, hlast.guards_eq_nil]
  refine ⟨And.left, fun hfree ↦ ⟨hfree, hI.free hlast.kept hfree⟩⟩

end Situation

end SyncKit
