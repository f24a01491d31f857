import SyncKit.Proofs.Quota.Turnover
import SyncKit.Proofs.Refusals

namespace SyncKit.QuotaLock

variable {κ : Type}

section Holding

variable {l l' l'' vacant : QuotaLock} {m m' : Mode} {first later : Option Mode}

/-- What is true of the way a lock is held, whatever was done to it before. -/
structure Orderly (l : QuotaLock) : Prop where
  free : l.active = 0 → l.returnTo = none
  mode : l.active ≠ 0 → ∃ m, l.mode = some m
  away : ∀ m, l.returnTo = some m → l.mode ≠ some m
  alone : l.mode = some .write → l.active = 0 ∨ l.active = 1

theorem Orderly.of_holding_eq (ho : Orderly l) (he : l'.holding = l.holding) : Orderly l' := by
  simp only [holding, Holding.mk.injEq] at he
  obtain ⟨hmode, hactive, hreturn⟩ := he
  constructor <;> simp only [hmode, hactive, hreturn]
  · exact ho.free
  · exact ho.mode
  · exact ho.away
  · exact ho.alone

theorem began_of_holding_eq (he : l'.holding = l.holding) : l'.began = l.began := by
  simp only [holding, Holding.mk.injEq] at he
  simp only [began, he]

@[simp] theorem holding_withWaiting (m : Mode) (n : UInt32) (l : QuotaLock) :
    (l.withWaiting m n).holding = l.holding := by cases m <;> rfl

structure Continues (l l' : QuotaLock) : Prop where
  orderly : Orderly l'
  held : l'.active ≠ 0
  began : l'.began = l.began

theorem Continues.trans (hc : Continues l l') (hc' : Continues l' l'') : Continues l l'' :=
  ⟨hc'.orderly, hc'.held, hc'.began.trans hc.began⟩

theorem Continues.of_holding_eq (ho : Orderly l) (hn : l.active ≠ 0)
    (he : l'.holding = l.holding) : Continues l l' := by
  refine ⟨ho.of_holding_eq he, ?_, began_of_holding_eq he⟩
  simp only [holding, Holding.mk.injEq] at he
  rwa [he.2.1]

theorem Orderly.convert (ho : Orderly l) (hm : l.mode = some m) (hone : l.active = 1)
    (hne : m' ≠ m) :
    Continues l { l with mode := some m', returnTo := convertedFrom m l.returnTo } := by
  have hheld : l.active ≠ 0 := by rw [hone]; decide
  refine ⟨⟨fun hz ↦ absurd hz hheld, fun _ ↦ ⟨m', rfl⟩, fun k hk he ↦ ?_, fun _ ↦ .inr hone⟩,
    hheld, began_convert ho.away hm hne⟩
  cases hr : l.returnTo with
  | none =>
    simp only [hr, convertedFrom, Option.some.injEq] at hk he
    exact hne (he.trans hk.symm)
  | some b => simp [hr, convertedFrom] at hk

/-- Callers come in, or try to, of which the first to come in is of mode `first`. To a held lock
only those of its mode come. -/
structure Fills (first : Option Mode) (l l' : QuotaLock) : Prop where
  orderly : Orderly l'
  returnTo : l'.returnTo = l.returnTo
  held : l.active ≠ 0 → l'.active ≠ 0 ∧ l'.mode = l.mode
  begins : ∀ m, first = some m → l'.active ≠ 0 ∧ l'.mode = some m

namespace Fills

theorem of_holding_eq (ho : Orderly l) (he : l'.holding = l.holding) : Fills none l l' := by
  have horderly := ho.of_holding_eq he
  simp only [holding, Holding.mk.injEq] at he
  obtain ⟨hmode, hactive, hreturn⟩ := he
  exact ⟨horderly, hreturn, fun hn ↦ ⟨hactive ▸ hn, hmode⟩, nofun⟩

theorem forget (hf : Fills first l l') : Fills none l l' :=
  { hf with begins := nofun }

theorem trans (hf : Fills first l l') (hf' : Fills later l' l'') :
    Fills (first.or later) l l'' where
  orderly := hf'.orderly
  returnTo := hf'.returnTo.trans hf.returnTo
  held hn := by
    obtain ⟨hheld, hmode⟩ := hf.held hn
    obtain ⟨hheld', hmode'⟩ := hf'.held hheld
    exact ⟨hheld', hmode'.trans hmode⟩
  begins m hm := by
    cases hfirst : first with
    | none =>
      rw [hfirst] at hm
      exact hf'.begins m hm
    | some k =>
      obtain ⟨hheld, hmode⟩ := hf.begins k hfirst
      obtain ⟨hheld', hmode'⟩ := hf'.held hheld
      rw [hfirst] at hm
      exact ⟨hheld', hmode'.trans (hmode.trans hm)⟩

theorem continues (hf : Fills first l l') (hn : l.active ≠ 0) : Continues l l' := by
  obtain ⟨hheld, hmode⟩ := hf.held hn
  exact ⟨hf.orderly, hheld, by simp only [began, hf.returnTo, hmode]⟩

theorem began_eq (hf : Fills first l l') (hr : l.returnTo = none) (hm : first = some m) :
    l'.active ≠ 0 ∧ l'.began = some m := by
  obtain ⟨hheld, hmode⟩ := hf.begins m hm
  exact ⟨hheld, by simp [began, hf.returnTo, hr, hmode]⟩

end Fills

end Holding

section Bids

variable {l : QuotaLock} {m : Mode} {α : Type} {got : α} {step : Step QuotaLock Fault α}

structure Bids (m : Mode) (got : α) (l : QuotaLock) (step : Step QuotaLock Fault α) : Prop where
  silent : step.signals = []
  fills : Fills none l step.lock
  got : step.result = .ok got → Fills (some m) l step.lock

namespace Bids

theorem of_fills (hs : step.signals = []) (hf : Fills (some m) l step.lock) :
    Bids m got l step := ⟨hs, hf.forget, fun _ ↦ hf⟩

theorem of_holding_eq (ho : Orderly l) (hs : step.signals = [])
    (he : step.lock.holding = l.holding) (hr : step.result ≠ .ok got) : Bids m got l step :=
  ⟨hs, .of_holding_eq ho he, fun hgot ↦ absurd hgot hr⟩

end Bids

theorem lock_grant (m : Mode) (l : QuotaLock) :
    ∃ active granted, active ≠ 0 ∧ (m = .write → active = 1) ∧ (l.grant m).signals = [] ∧
      (l.grant m).lock = { l with mode := some m, active, granted } := by
  have hcount (l : QuotaLock) : ∃ granted, l.countGrant.signals = [] ∧
      l.countGrant.lock = { l with granted } := by
    unfold countGrant
    split <;> exact ⟨_, rfl, rfl⟩
  cases m with
  | read =>
    simp only [grant]
    split
    · next n hn =>
      obtain ⟨granted, hsilent, hlock⟩ := hcount { l with mode := some .read, active := n }
      refine ⟨n, granted, ?_, fun hwrite ↦ absurd hwrite (by decide), hsilent, hlock⟩
      rintro rfl
      cases Checked.toNat_of_increment hn
    · next o hfull =>
      refine ⟨l.active, l.granted, ?_, fun hwrite ↦ absurd hwrite (by decide), rfl, rfl⟩
      intro hzero
      rw [hzero] at hfull
      cases hfull
  | write =>
    obtain ⟨granted, hsilent, hlock⟩ := hcount { l with mode := some .write, active := 1 }
    exact ⟨1, granted, by decide, fun _ ↦ rfl, hsilent, hlock⟩

theorem bids_grant (ho : Orderly l) (ha : l.admits m = true) {got : Bid} :
    Bids m got l (l.grant m) := by
  obtain ⟨active, granted, hheld, hone, hsilent, hlock⟩ := lock_grant m l
  have hsame : l.active ≠ 0 → some m = l.mode := fun hn ↦ by
    obtain ⟨rfl, hmode⟩ := admits_held ha hn
    exact hmode.symm
  refine .of_fills hsilent ?_
  rw [hlock]
  refine ⟨⟨fun hz ↦ absurd hz hheld, fun _ ↦ ⟨m, rfl⟩, fun k hk ↦ ?_, fun hw ↦ ?_⟩, rfl,
    fun hn ↦ ⟨hheld, hsame hn⟩, fun k hk ↦ ⟨hheld, hk⟩⟩
  · have hn : l.active ≠ 0 := fun hz ↦ by
      have hnone := ho.free hz
      rw [hnone] at hk
      cases hk
    rw [hsame hn]
    exact ho.away k hk
  · exact .inr (hone (Option.some.inj hw))

theorem bids_bid (ho : Orderly l) (m : Mode) (mayWait yields : Bool) :
    Bids m .granted l (l.bid m mayWait yields) := by
  unfold bid
  split
  · next hcond => exact bids_grant ho (Bool.and_eq_true_iff.1 hcond).2
  · split
    · unfold sleep
      split
      · exact .of_holding_eq ho rfl (holding_withWaiting _ _ _) nofun
      · exact .of_holding_eq ho rfl rfl nofun
    · exact .of_holding_eq ho rfl rfl nofun

theorem bids_tryLock (ho : Orderly l) (m : Mode) : Bids m .done l (l.tryLock m) := by
  have hb := bids_bid ho m false (l.waiting m != 0)
  refine ⟨hb.silent, hb.fills, fun hdone ↦ hb.got ?_⟩
  simp only [tryLock, Step.map, bidAsNewcomer] at hdone
  cases hr : (l.bid m false (l.waiting m != 0)).result with
  | error f => simp [hr, Except.map] at hdone
  | ok b => cases b <;> simp [hr, Except.map] at hdone ⊢

theorem bids_turnOf {step : Step QuotaLock Fault Bid} (hb : Bids m .granted l step) :
    Bids m .acquired l (turnOf m step) := by
  refine ⟨hb.silent, hb.fills, fun hgot ↦ hb.got ?_⟩
  cases hr : step.result with
  | error f => simp [turnOf, hr] at hgot
  | ok b => cases b <;> simp [turnOf, hr] at hgot ⊢

theorem bids_enter (ho : Orderly l) (m : Mode) : Bids m .acquired l (l.enter m) :=
  bids_turnOf (bids_bid ho m true _)

theorem bids_resume (ho : Orderly l) (m : Mode) : Bids m .acquired l (l.resume m) := by
  unfold resume
  split
  · next n _ =>
    have he : (l.withWaiting m n).holding = l.holding := holding_withWaiting m n l
    have hb := bids_turnOf (bids_bid (ho.of_holding_eq he) m true false)
    have hf := Fills.of_holding_eq ho he
    exact ⟨hb.silent, hf.trans hb.fills, fun hgot ↦ hf.trans (hb.got hgot)⟩
  · exact .of_holding_eq ho rfl rfl nofun

theorem Fills.withSpins {first : Option Mode} {l' : QuotaLock} (hf : Fills first l l')
    (spins : Int32) : Fills first l { l' with spins } :=
  { hf with orderly := hf.orderly.of_holding_eq rfl }

theorem Bids.conclude {step : Step QuotaLock Fault (Turn Mode)} (hb : Bids m .acquired l step)
    (estimate spent : Int32) :
    Bids m .acquired l (Contended.conclude estimate spent step) := by
  unfold Contended.conclude
  split
  · split
    · exact ⟨hb.silent, hb.fills.withSpins _, fun hgot ↦ (hb.got hgot).withSpins _⟩
    · exact ⟨hb.silent, hb.fills, nofun⟩
  · exact hb

theorem bids_call (ho : Orderly l) (m : Mode) :
    Bids m .acquired l (Contended.enter (F := Fault) m l) := by
  have htry := bids_tryLock ho m
  rcases Nat.eq_zero_or_pos (Spin.tries (RawLock.spins l)) with hnone | hspins
  · rw [Contended.enter_of_no_tries hnone]
    exact (bids_enter ho m).conclude _ _
  obtain hrefused | ⟨l', hwon⟩ | ⟨o, l', hfault⟩ := tryLock_cases m l
  · rw [Contended.enter_of_refused hrefused]
    exact (bids_enter ho m).conclude _ _
  · rw [hwon] at htry
    rw [Contended.enter_of_won hwon hspins]
    exact Bids.conclude (.of_fills rfl (htry.got rfl)) _ _
  · rw [hfault] at htry
    have hresult : (RawLock.request (F := Fault) (.tryLock m) l).result = .error (.overflow o) :=
      congrArg Step.result hfault
    rw [Contended.enter_of_faulted hresult hspins]
    refine ⟨?_, ?_, nofun⟩
    · exact congrArg Step.signals hfault
    · exact (congrArg Step.lock hfault : _ = l') ▸ htry.fills

end Bids

section Serving

variable {l : QuotaLock} {c : Contended QuotaLock Mode κ} {m : Mode}

theorem fills_resumeAll (ho : Orderly l) (ws : List (Sleeper κ Mode)) :
    let run := Contended.resumeAll (F := Fault) l ws
    Fills (Returned.modes run.returned).head? l run.lock := by
  induction ws generalizing l with
  | nil => exact .of_holding_eq ho rfl
  | cons s later ih =>
    have hb : Bids s.mode .acquired l (Contended.resume (F := Fault) s l) :=
      (bids_resume ho s.mode).conclude _ _
    have hlater := ih hb.fills.orderly
    cases hresult : (Contended.resume (F := Fault) s l).result with
    | error f =>
      simp only [Contended.resumeAll, hresult]
      exact hb.fills.trans hlater
    | ok turn =>
      cases turn with
      | acquired =>
        rw [Contended.resumeAll_cons_acquired later hresult]
        exact (hb.got hresult).trans hlater
      | asleep wait =>
        rw [Contended.resumeAll_cons_asleep later hresult]
        exact hb.fills.trans hlater

theorem fills_settle {α : Type} {step : Step QuotaLock Fault α} (ho : Orderly step.lock)
    (sleepers : List (Sleeper κ Mode)) :
    let run := Contended.settle step sleepers
    Fills (Returned.modes run.returned).head? step.lock run.lock := fills_resumeAll ho _

theorem fills_newcomer (ho : Orderly c.lock) {d : Demand κ} (hd : d.seeks = some m) :
    let out := c.serve (F := Fault) d
    Fills (out.admitted d).head? c.lock out.after.lock := by
  cases d with
  | call caller n =>
    cases hd
    have hb := bids_call ho m
    simp only [Contended.serve, Contended.call]
    generalize Contended.enter (F := Fault) m c.lock = step at hb ⊢
    rw [Contended.settle_of_silent hb.silent]
    cases hresult : step.result with
    | error f => exact hb.fills
    | ok turn =>
      cases turn with
      | acquired => exact hb.got hresult
      | asleep wait => exact hb.fills
  | request r =>
    cases r with
    | tryLock n =>
      cases hd
      have hb := bids_tryLock ho m
      rw [Contended.serve, Contended.request_of_silent hb.silent]
      cases hresult : (RawLock.request (F := Fault) (.tryLock m) c.lock).result with
      | error f => exact hb.fills
      | ok a =>
        cases a with
        | done => exact hb.got hresult
        | wouldBlock => exact hb.fills
    | unlock _ => cases hd
    | upgrade => cases hd
    | downgrade => cases hd

theorem continues_upgrade (ho : Orderly c.lock) (hn : c.lock.active ≠ 0) :
    Continues c.lock (c.request (F := Fault) .upgrade).after.lock := by
  have hkept : Continues c.lock c.lock := .of_holding_eq ho hn rfl
  by_cases hread : c.lock.mode = some .read
  · by_cases hone : c.lock.active = 1
    · rw [Contended.request_of_done (r := .upgrade) (upgrade_of_alone hread hone)]
      exact ho.convert hread hone (by decide)
    · rw [Contended.request_of_done (r := .upgrade) (upgrade_of_shared hread hn hone)]
      exact hkept
  · rw [Contended.request_of_fault (r := .upgrade) (upgrade_of_not_held (.inl hread))]
    exact hkept

theorem continues_downgrade (ho : Orderly c.lock) (hn : c.lock.active ≠ 0) :
    Continues c.lock (c.request (F := Fault) .downgrade).after.lock := by
  by_cases hnot : c.lock.mode ≠ some .write ∨ c.lock.active ≠ 1
  · rw [Contended.request_of_fault (r := .downgrade) (downgrade_of_not_held hnot)]
    exact .of_holding_eq ho hn rfl
  · obtain ⟨hwrite, hone⟩ := not_or.1 hnot
    rw [Ne, Decidable.not_not] at hwrite hone
    have hconvert : Continues c.lock c.lock.downgrade.lock := by
      rw [downgrade_eq hwrite hone]
      exact ho.convert hwrite hone (by decide)
    exact hconvert.trans ((fills_settle hconvert.orderly _).continues hconvert.held)

theorem continues_unlock (ho : Orderly c.lock) (hn : c.lock.active ≠ 0)
    (hlast : c.lock.mode = some m → c.lock.active ≠ 1) :
    Continues c.lock (c.request (F := Fault) (.unlock m)).after.lock := by
  by_cases hm : c.lock.mode = some m
  · have hshared := hlast hm
    rw [Contended.request_of_done (r := .unlock m) (unlock_of_shared hm hn hshared)]
    have hleft := active_sub_one_ne_zero hshared
    refine ⟨⟨fun hz ↦ absurd hz hleft, fun _ ↦ ho.mode hn, ho.away, fun hw ↦ ?_⟩, hleft, rfl⟩
    exact absurd (ho.alone hw) (not_or.2 ⟨hn, hshared⟩)
  · rw [Contended.request_of_fault (r := .unlock m) (unlock_of_not_held (.inr hm))]
    exact .of_holding_eq ho hn rfl

theorem vacated (hm : c.lock.mode = some m) (hone : c.lock.active = 1) :
    let out := c.request (F := Fault) (.unlock m)
    ∃ b vacant, c.lock.began = some b ∧
      c.lock.unlock m =
        { c.lock with active := 0, mode := some b, returnTo := none }.handOff ∧
      out.reply = .done ∧ vacant.returnTo = none ∧
      Fills (out.admitted (.request (.unlock m))).head? vacant out.after.lock := by
  obtain ⟨b, hb, hstep⟩ := unlock_of_last hm hone
  obtain ⟨mode, granted, signals, notes, hhand, -⟩ :=
    handOff_hands (l := { c.lock with active := 0, mode := some b, returnTo := none }) rfl
  have hlock := congrArg Step.lock (hstep.trans hhand)
  have hresult := congrArg Step.result (hstep.trans hhand)
  have ho : Orderly (c.lock.unlock m).lock := by
    rw [hlock]
    exact ⟨fun _ ↦ rfl, fun hn ↦ absurd rfl hn, nofun, fun _ ↦ .inl rfl⟩
  refine ⟨b, (c.lock.unlock m).lock, hb, hstep, congrArg Reply.ofAttempt hresult, ?_, ?_⟩
  · rw [hlock]
  · rw [Outcome.admitted_of_seeks_eq_none rfl]
    exact fills_settle ho c.sleepers

theorem request_of_free (hz : c.lock.active = 0) {r : Request}
    (hr : Demand.seeks (κ := κ) (.request r) = none) : Misused c (c.request r) := by
  cases r with
  | tryLock _ => cases hr
  | unlock m => exact .of_step (.release m) (unlock_of_not_held (.inl hz))
  | upgrade => exact .of_step .upgrade (upgrade_of_not_held (.inr hz))
  | downgrade =>
    refine .of_step .downgrade (downgrade_of_not_held (.inr ?_))
    rw [hz]
    decide

def LastLeaves (l : QuotaLock) (d : Demand κ) : Prop :=
  ∃ m, d = .request (.unlock m) ∧ l.mode = some m ∧ l.active = 1

theorem continues_serve (ho : Orderly c.lock) (hn : c.lock.active ≠ 0) {d : Demand κ}
    (hstays : ¬ LastLeaves c.lock d) : Continues c.lock (c.serve (F := Fault) d).after.lock := by
  cases d with
  | call caller m => exact (fills_newcomer ho rfl).continues hn
  | request r =>
    cases r with
    | tryLock m => exact (fills_newcomer ho rfl).continues hn
    | unlock m => exact continues_unlock ho hn fun hm hone ↦ hstays ⟨m, rfl, hm, hone⟩
    | upgrade => exact continues_upgrade ho hn
    | downgrade => exact continues_downgrade ho hn

theorem fills_free (ho : Orderly c.lock) (hz : c.lock.active = 0) (d : Demand κ) :
    let out := c.serve (F := Fault) d
    Fills (out.admitted d).head? c.lock out.after.lock := by
  cases hd : d.seeks with
  | some m => exact fills_newcomer ho hd
  | none =>
    cases d with
    | call caller m => cases hd
    | request r =>
      have hmisused := request_of_free hz hd
      simp only [Contended.serve, Outcome.admitted_of_seeks_eq_none hd, hmisused.after,
        hmisused.returned]
      exact .of_holding_eq ho rfl

theorem orderly_serve (ho : Orderly c.lock) (d : Demand κ) :
    Orderly (c.serve (F := Fault) d).after.lock := by
  by_cases hz : c.lock.active = 0
  · exact (fills_free ho hz d).orderly
  · by_cases hlast : LastLeaves c.lock d
    · obtain ⟨m, rfl, hm, hone⟩ := hlast
      obtain ⟨b, vacant, -, -, -, -, hfills⟩ := vacated hm hone
      exact hfills.orderly
    · exact (continues_serve ho hz hlast).orderly

/-- A conversion that faults is misuse, and so is the release of its guard on the way out. -/
theorem misused_conversion {c : Contended QuotaLock Mode Caller} (ho : Orderly c.lock) {r : Request}
    (hm : Guarded.convertsFrom (.request r) = some m) {f : Fault}
    (hf : (c.request r).reply = .fault f) :
    Misused c (c.request r) ∧ Misused c (c.request (.unlock m)) := by
  cases r with
  | tryLock _ => cases hm
  | unlock _ => cases hm
  | upgrade =>
    cases hm
    by_cases hnot : c.lock.mode ≠ some .read ∨ c.lock.active = 0
    · exact ⟨.of_step .upgrade (upgrade_of_not_held hnot),
        .of_step (.release .read) (unlock_of_not_held hnot.symm)⟩
    · obtain ⟨hread, hn⟩ := not_or.1 hnot
      rw [Ne, Decidable.not_not] at hread
      by_cases hone : c.lock.active = 1
      · rw [Contended.request_of_done (r := .upgrade) (upgrade_of_alone hread hone)] at hf
        cases hf
      · rw [Contended.request_of_done (r := .upgrade) (upgrade_of_shared hread hn hone)] at hf
        cases hf
  | downgrade =>
    cases hm
    by_cases hnot : c.lock.mode ≠ some .write ∨ c.lock.active ≠ 1
    · refine ⟨.of_step .downgrade (downgrade_of_not_held hnot),
        .of_step (.release .write) (unlock_of_not_held ?_)⟩
      by_cases hwrite : c.lock.mode = some .write
      · exact .inl ((ho.alone hwrite).resolve_right (hnot.resolve_left fun hne ↦ hne hwrite))
      · exact .inr hwrite
    · obtain ⟨hwrite, hone⟩ := not_or.1 hnot
      rw [Ne, Decidable.not_not] at hwrite hone
      have hresult : c.lock.downgrade.result = .ok .done := by rw [downgrade_eq hwrite hone]
      have hreply : (c.request (F := Fault) .downgrade).reply = .done :=
        congrArg Reply.ofAttempt hresult
      cases hreply.symm.trans hf

end Serving

section Periods

variable {s t u : Situation QuotaLock Mode} {move : Situation.Move QuotaLock Mode Fault}
  {moves : List (Situation.Move QuotaLock Mode Fault)} {m : Mode}

def Vacates (s : Situation QuotaLock Mode) (move : Situation.Move QuotaLock Mode Fault) : Prop :=
  ∃ m, s.guarded.demand? move.op = some (.request (.unlock m)) ∧ s.calls.lock.mode = some m ∧
    s.calls.lock.active = 1

/-- A move that lets callers into a lock that nobody holds, or holds any longer, the first of them
in mode `m`. -/
def Opens (m : Mode) (s : Situation QuotaLock Mode)
    (move : Situation.Move QuotaLock Mode Fault) : Prop :=
  (s.calls.lock.active = 0 ∨ Vacates s move) ∧ move.admitted.head? = some m

def Within (s : Situation QuotaLock Mode) (move : Situation.Move QuotaLock Mode Fault)
    (_ : Situation QuotaLock Mode) : Prop := ¬ Vacates s move

namespace Orderly

/-- A move leaves the lock as it was or does to it what its demand does, faults included. -/
theorem step_cases (ho : Orderly s.calls.lock) (hstep : Situation.Step s move t) :
    t.calls.lock = s.calls.lock ∧ move.admitted = [] ∨
      ∃ d sleepers out, s.guarded.demand? move.op = some d ∧
        out = Contended.serve { s.calls with sleepers } d ∧ t.calls = out.after ∧
        move.report.answer.met = out.reply.met ∧ move.admitted = out.admitted d := by
  cases hd : s.guarded.demand? move.op with
  | none =>
    obtain ⟨sleepers, -, hcalls, -, hreturned, denial, hanswer⟩ := hstep.denied hd
    refine .inl ⟨by rw [hcalls], Situation.Move.admitted_of_unmet ?_ hreturned⟩
    rw [hanswer]
    rfl
  | some d =>
    obtain ⟨sleepers, -, out, hout, -, hserved, hfails⟩ := hstep.demands hd
    cases hreply : out.reply with
    | fault f =>
      obtain ⟨hanswer, -, hcalls⟩ := hfails f hreply
      have hunmet : move.report.answer.met = false := by rw [hanswer]; rfl
      obtain ⟨hcalls, hreturned⟩ | ⟨m, hm, hcalls, hreturned⟩ := hcalls
      · have hmet : move.report.answer.met = out.reply.met := by rw [hunmet, hreply]; rfl
        exact .inr ⟨d, sleepers, out, rfl, hout, hcalls, hmet,
          Situation.Move.admitted_of_demand hd hmet hreturned⟩
      · cases d with
        | call caller m => cases hm
        | request r =>
          change out = Contended.request r { s.calls with sleepers } at hout
          rw [hout] at hreply
          obtain ⟨hmisused, hdropped⟩ :=
            misused_conversion (c := { s.calls with sleepers }) ho hm hreply
          rw [hout, hmisused.after] at hcalls hreturned
          rw [hmisused.returned, hdropped.returned] at hreturned
          rw [hcalls, hdropped.after]
          exact .inl ⟨rfl, Situation.Move.admitted_of_unmet hunmet hreturned⟩
    | _ =>
      obtain ⟨hcalls, -, hreturned, hmet, -⟩ := hserved (by rw [hreply]; rfl)
      exact .inr ⟨d, sleepers, out, rfl, hout, hcalls, hmet,
        Situation.Move.admitted_of_demand hd hmet hreturned⟩

theorem step (ho : Orderly s.calls.lock) (hstep : Situation.Step s move t) :
    Orderly t.calls.lock := by
  obtain ⟨hlock, -⟩ | ⟨d, sleepers, out, -, rfl, hcalls, -⟩ := ho.step_cases hstep
  · rw [hlock]
    exact ho
  · rw [hcalls]
    exact orderly_serve (c := { s.calls with sleepers }) ho d

theorem within_step (ho : Orderly s.calls.lock) (hn : s.calls.lock.active ≠ 0)
    (hstep : Situation.Step s move t) (hwithin : Within s move t) :
    Continues s.calls.lock t.calls.lock := by
  obtain ⟨hlock, -⟩ | ⟨d, sleepers, out, hd, rfl, hcalls, -⟩ := ho.step_cases hstep
  · exact .of_holding_eq ho hn (by rw [hlock])
  · rw [hcalls]
    refine continues_serve (c := { s.calls with sleepers }) ho hn ?_
    rintro ⟨m, rfl, hm, hone⟩
    exact hwithin ⟨m, hd, hm, hone⟩

theorem within_run (hrun : Situation.Run Within s moves t) (ho : Orderly s.calls.lock)
    (hn : s.calls.lock.active ≠ 0) : Continues s.calls.lock t.calls.lock := by
  induction hrun with
  | nil => exact .of_holding_eq ho hn rfl
  | cons hstep hwithin _ ih =>
    have hfirst := ho.within_step hn hstep hwithin
    exact hfirst.trans (ih hfirst.orderly hfirst.held)

theorem vacated_step (hstep : Situation.Step s move t)
    (hd : s.guarded.demand? move.op = some (.request (.unlock m)))
    (hm : s.calls.lock.mode = some m) (hone : s.calls.lock.active = 1) :
    ∃ b vacant, s.calls.lock.began = some b ∧
      s.calls.lock.unlock m =
        { s.calls.lock with active := 0, mode := some b, returnTo := none }.handOff ∧
      move.report.answer.met = true ∧ vacant.returnTo = none ∧
      Fills move.admitted.head? vacant t.calls.lock := by
  obtain ⟨sleepers, -, out, hout, -, hmet, hserved⟩ := hstep.serves_demand hd
  change out = Contended.request (.unlock m) { s.calls with sleepers } at hout
  obtain ⟨b, vacant, hbegan, hunlock, hreply, hreturn, hfills⟩ :=
    vacated (c := { s.calls with sleepers }) hm hone
  rw [← hout] at hreply hfills
  obtain ⟨hcalls, -, hreturned⟩ := hserved (by rw [hreply]; rfl)
  rw [← Situation.Move.admitted_of_demand hd hmet hreturned, ← hcalls] at hfills
  exact ⟨b, vacant, hbegan, hunlock, by rw [hmet, hreply]; rfl, hreturn, hfills⟩

theorem opened (ho : Orderly s.calls.lock) (hstep : Situation.Step s move t)
    (hopens : Opens m s move) : t.calls.lock.active ≠ 0 ∧ t.calls.lock.began = some m := by
  obtain ⟨hfree | ⟨m', hd, hm, hone⟩, hhead⟩ := hopens
  · obtain ⟨-, hnobody⟩ | ⟨d, sleepers, out, -, rfl, hcalls, -, hadmitted⟩ := ho.step_cases hstep
    · rw [hnobody] at hhead
      cases hhead
    · rw [hadmitted] at hhead
      rw [hcalls]
      exact (fills_free (c := { s.calls with sleepers }) ho hfree d).began_eq (ho.free hfree) hhead
  · obtain ⟨b, vacant, -, -, -, hreturn, hfills⟩ := vacated_step hstep hd hm hone
    exact hfills.began_eq hreturn hhead

end Orderly

theorem orderly_fresh (q : Quotas) :
    Orderly (Situation.fresh (W := Mode) (QuotaLock.ofQuotas q)).calls.lock :=
  ⟨fun _ ↦ rfl, fun hn ↦ absurd rfl hn, nofun, nofun⟩

/-- From the grant that begins a hold until its last holder leaves the lock remembers the mode of
that grant, whoever converts it, comes and goes. In that mode it is handed on, and then the lock
remembers nothing. -/
theorem released_as_granted (q : Quotas) {within : List (Situation.Move QuotaLock Mode Fault)}
    (hrun : Situation.Run (fun _ _ _ ↦ True) (Situation.fresh (QuotaLock.ofQuotas q)) moves s)
    (hopening : Situation.Step s move t) (hopens : Opens m s move)
    (hwithin : Situation.Run Within t within u) :
    let l := u.calls.lock
    l.active ≠ 0 ∧ l.returnTo.or l.mode = some m ∧
      ∀ (last : Situation.Move QuotaLock Mode Fault) (v : Situation QuotaLock Mode) (m' : Mode),
        Situation.Step u last v → u.guarded.demand? last.op = some (.request (.unlock m')) →
        l.mode = some m' → l.active = 1 →
          l.unlock m' = { l with active := 0, mode := some m, returnTo := none }.handOff ∧
            last.report.answer.met = true ∧ v.calls.lock.returnTo = none := by
  have ho : Orderly s.calls.lock :=
    hrun.preserves (fun _ _ _ ho hstep _ ↦ Orderly.step ho hstep) (orderly_fresh q)
  obtain ⟨hheld, hbegan⟩ := ho.opened hopening hopens
  have hhold := Orderly.within_run hwithin (ho.step hopening) hheld
  have hmode : u.calls.lock.began = some m := hhold.began.trans hbegan
  refine ⟨hhold.held, hmode, fun last v m' hlast hd hm hone ↦ ?_⟩
  obtain ⟨b, vacant, hb, hunlock, hmet, hreturn, hfills⟩ := Orderly.vacated_step hlast hd hm hone
  obtain rfl : b = m := Option.some.inj (hb.symm.trans hmode)
  exact ⟨hunlock, hmet, hfills.returnTo.trans hreturn⟩

/-- A writer downgrades and leaves to a reader that joined it, which gives back a read; the lock is
handed on as after a write. -/
theorem released_as_granted_by_joiner :
    ∃ opening t within u last v,
      Situation.Step (Situation.fresh (QuotaLock.ofQuotas {})) opening t ∧
        opening.op = .request (.tryLock .write) ∧ Situation.Run Within t within u ∧
        within.map (·.op) = [.lock .write "next", .request .downgrade, .request (.tryLock .read),
          .request (.unlock .read)] ∧
        Situation.Step (F := Fault) u last v ∧ last.op = .request (.unlock .read) ∧
        u.calls.lock.unlock .read =
          { u.calls.lock with active := 0, mode := some .write, returnTo := none }.handOff ∧
        v.calls.lock.returnTo = none := by
  obtain ⟨opening, t, within, u, last, v, hopening, hopens, hop, hwithin, hops, hlast, hlastop, hd,
      hmode, hone⟩ :
      ∃ opening t within u last v,
        Situation.Step (Situation.fresh (QuotaLock.ofQuotas {})) opening t ∧
          Opens .write (Situation.fresh (QuotaLock.ofQuotas {})) opening ∧
          opening.op = .request (.tryLock .write) ∧ Situation.Run Within t within u ∧
          within.map (·.op) = [.lock .write "next", .request .downgrade,
            .request (.tryLock .read), .request (.unlock .read)] ∧
          Situation.Step (F := Fault) u last v ∧ last.op = .request (.unlock .read) ∧
          u.guarded.demand? last.op = some (.request (.unlock .read)) ∧
          u.calls.lock.mode = some .read ∧ u.calls.lock.active = 1 :=
    ⟨_, _, _, _, _, _, .intro (.request (.tryLock .write)) (.refl _) rfl, ⟨.inl rfl, rfl⟩, rfl,
      .cons (.intro (.lock .write "next") (.refl _) rfl) nofun <|
      .cons (.intro (.request .downgrade) (.refl _) rfl) nofun <|
      .cons (.intro (.request (.tryLock .read)) (.refl _) rfl) nofun <|
      .cons (.intro (.request (.unlock .read)) (.refl _) rfl) nofun <|
      .nil _, rfl, .intro (.request (.unlock .read)) (.refl _) rfl, rfl, rfl, rfl, rfl⟩
  obtain ⟨-, -, hrelease⟩ := released_as_granted {} (.nil _) hopening hopens hwithin
  obtain ⟨hunlock, -, hreturn⟩ := hrelease last v .read hlast hd hmode hone
  exact ⟨opening, t, within, u, last, v, hopening, hop, hwithin, hops, hlast, hlastop, hunlock,
    hreturn⟩

end Periods

end SyncKit.QuotaLock
