import SyncKit.Proofs.Quota.Conduct

namespace SyncKit.QuotaLock

section Demands

variable {κ : Type} {h : Holds} {c : Contended QuotaLock Mode κ} {l : QuotaLock} {m : Mode}

theorem Steady.newcomer (hs : Steady h c) {d : Demand κ} (hd : d.seeks = some m)
    (hheld : h.total + 1 < 2 ^ 32) (hroom : c.sleepers.length + 1 < 2 ^ 32) :
    let out := c.serve (F := Fault) d
    out.returned = [] ∧
      (out.reply.met = false ∧ out.reply.faulted = false ∨
        out.reply = .done ∧ c.lock.granted.toNat + 1 < 2 ^ 32 ∨
        out.reply = .fault (.overflow .add) ∧ ¬ c.lock.granted.toNat + 1 < 2 ^ 32 ∧
          out.after.lock.active = c.lock.active + 1) := by
  have hactive : c.lock.active.toNat + 1 < 2 ^ 32 := by
    rw [hs.tallied.active]
    exact hheld
  have harrival := hs.arrives hd fun _ _ _ ↦ hroom
  dsimp only
  generalize c.serve (F := Fault) d = out at harrival ⊢
  cases harrival with
  | refused _ => exact ⟨rfl, .inl ⟨rfl, rfl⟩⟩
  | asleep _ _ _ => exact ⟨rfl, .inl ⟨rfl, rfl⟩⟩
  | seated _ hfit _ => exact ⟨rfl, .inr (.inl ⟨rfl, hfit⟩)⟩
  | full _ hfull hn => exact ⟨rfl, .inr (.inr ⟨rfl, hfull, hn hactive⟩)⟩

theorem Resumes.room {ws others : List (Sleeper κ Mode)}
    {run : Aftermath QuotaLock Mode Fault κ} (hr : Resumes h l ws others run)
    (hall : run.returned.all (·.granted) = true) :
    l.granted.toNat + run.returned.length < 2 ^ 32 := by
  induction hr with
  | nil => exact UInt32.toNat_lt _
  | asleep _ _ ih => exact ih hall
  | acquired _ hin _ ih =>
    have hcount := hin.granted
    have hrest := ih hall
    rw [List.length_cons]
    omega
  | full => cases (Bool.and_eq_true_iff.1 hall).1

theorem signals_upgrade (l : QuotaLock) : l.upgrade.signals = [] := by
  unfold upgrade misused
  split
  · rfl
  · split <;> rfl

theorem Steady.conversion_replies (hs : Steady h c) {r : Request} (hp : h.Permits r)
    (hr : r = .upgrade ∨ r = .downgrade) : (c.request (F := Fault) r).reply.faulted = false := by
  rcases hr with rfl | rfl
  · exact Outcome.unfaulted (hs.upgrade hp).faultless
  · obtain ⟨-, hresult, -, -⟩ := hs.downgraded hp
    have hreply : (c.request (F := Fault) .downgrade).reply = .done :=
      congrArg Reply.ofAttempt hresult
    rw [hreply]
    rfl

/-- Whatever is asked of a steady lock for a hold that is there faults exactly when it makes more
grants than can be counted. A release makes room for its own. -/
theorem Steady.faultless_iff (hs : Steady h c) (hheld : h.total + 1 < 2 ^ 32)
    (hroom : c.sleepers.length + 1 < 2 ^ 32) (d : Demand κ)
    (hp : ∀ r, d = .request r → h.Permits r) :
    (c.serve (F := Fault) d).faultless = true ↔ (∃ m, d = .request (.unlock m)) ∨
      c.lock.granted.toNat + (c.serve (F := Fault) d).grants d < 2 ^ 32 := by
  constructor
  · intro hfaultless
    obtain ⟨hreply, hall⟩ := Bool.and_eq_true_iff.1 hfaultless
    have hlt := c.lock.granted.toNat_lt
    have hnewcomer {m : Mode} (hd : d.seeks = some m) :
        c.lock.granted.toNat + (c.serve (F := Fault) d).grants d < 2 ^ 32 := by
      obtain ⟨hreturned, ⟨hmet, hok⟩ | ⟨hdone, hfit⟩ | ⟨hfault, -⟩⟩ := hs.newcomer hd hheld hroom
      · rw [Outcome.grants, hreturned, hmet, hok, Bool.or_self, Bool.and_false]
        exact hlt
      · rw [Outcome.grants, hreturned, hdone, hd]
        exact hfit
      · rw [hfault] at hreply
        cases hreply
    cases d with
    | call caller m => exact .inr (hnewcomer rfl)
    | request r =>
      cases r with
      | tryLock m => exact .inr (hnewcomer rfl)
      | unlock m => exact .inl ⟨m, rfl⟩
      | upgrade =>
        right
        simp only [Contended.serve,
          Contended.request_of_silent (r := .upgrade) (signals_upgrade c.lock)]
        exact hlt
      | downgrade =>
        right
        obtain ⟨-, -, hgranted, hconvert⟩ := hs.downgraded (hp _ rfl)
        have hwake := Contended.wake_perm c.sleepers c.lock.downgrade.signals
        have hfit := (resumes_resumeAll _ _ (hconvert.perm hwake)).room hall
        rw [hgranted] at hfit
        have hgrants : (c.serve (F := Fault) (.request .downgrade)).grants (.request .downgrade) =
            (c.serve (F := Fault) (.request .downgrade)).returned.length := Nat.zero_add _
        rw [hgrants]
        exact hfit
  · rintro (⟨m, rfl⟩ | hfit)
    · exact (hs.served_unlock (hp _ rfl)).faultless
    · rcases hs.serve d (fun _ _ _ ↦ hroom) hfit with hserved | ⟨⟨r, hr, hn⟩, -⟩
      · exact hserved.faultless
      · exact absurd (hp r hr) hn

theorem Steady.served_of_faultless (hs : Steady h c) (hheld : h.total + 1 < 2 ^ 32)
    (hroom : c.sleepers.length + 1 < 2 ^ 32) (d : Demand κ)
    (hp : ∀ r, d = .request r → h.Permits r) (hf : (c.serve (F := Fault) d).faultless = true) :
    Served h c d (c.serve d) := by
  rcases (hs.faultless_iff hheld hroom d hp).1 hf with ⟨m, rfl⟩ | hfit
  · exact hs.served_unlock (hp _ rfl)
  · rcases hs.serve d (fun _ _ _ ↦ hroom) hfit with hserved | ⟨⟨r, hr, hn⟩, -⟩
    · exact hserved
    · exact absurd (hp r hr) hn

/-- Whoever faults is a newcomer that the lock has let in but could not count. -/
theorem Steady.half_made (hs : Steady h c) (hheld : h.total + 1 < 2 ^ 32)
    (hroom : c.sleepers.length + 1 < 2 ^ 32) (d : Demand κ)
    (hp : ∀ r, d = .request r → h.Permits r) {f : Fault} (hf : (c.serve d).reply = .fault f) :
    f = .overflow .add ∧ c.lock.granted.toNat = 2 ^ 32 - 1 ∧
      (c.serve (F := Fault) d).returned = [] ∧
      (c.serve (F := Fault) d).after.lock.active.toNat = h.total + 1 := by
  have hnewcomer {m : Mode} (hd : d.seeks = some m) : f = .overflow .add ∧
      c.lock.granted.toNat = 2 ^ 32 - 1 ∧ (c.serve (F := Fault) d).returned = [] ∧
      (c.serve (F := Fault) d).after.lock.active.toNat = h.total + 1 := by
    obtain ⟨hreturned, ⟨-, hok⟩ | ⟨hdone, -⟩ | ⟨hfault, hfull, hactive⟩⟩ :=
      hs.newcomer hd hheld hroom
    · rw [hf] at hok
      cases hok
    · rw [hf] at hdone
      cases hdone
    · have hlt := c.lock.granted.toNat_lt
      refine ⟨Reply.fault.inj (hf.symm.trans hfault), by omega, hreturned, ?_⟩
      have hinside := hs.tallied.active
      rw [hactive, Checked.toNat_of_increment (Checked.increment_of_lt (by omega)), hinside]
  have hconversion {r : Request} (hd : d = .request r) (hr : r = .upgrade ∨ r = .downgrade) :
      (c.serve (F := Fault) d).reply ≠ .fault f := by
    subst hd
    intro hfault
    have hok := hs.conversion_replies (hp r rfl) hr
    change (c.request (F := Fault) r).reply = _ at hfault
    rw [hfault] at hok
    cases hok
  cases d with
  | call caller m => exact hnewcomer rfl
  | request r =>
    cases r with
    | tryLock m => exact hnewcomer rfl
    | unlock m => exact absurd hf ((hs.served_unlock (hp _ rfl)).reply_ne_fault f)
    | upgrade => exact absurd hf (hconversion rfl (.inl rfl))
    | downgrade => exact absurd hf (hconversion rfl (.inr rfl))

/-- The last release starts the count again, unless it hands the lock to a writer within the write
quota. -/
theorem Steady.granted_of_last (hs : Steady h c) {m : Mode} (hpos : 0 < h.of m)
    (hone : h.total = 1) :
    let out := c.request (F := Fault) (.unlock m)
    out.after.lock.granted.toNat ≤ max out.returned.length c.lock.writeQuota.toNat := by
  have ht := hs.tallied
  obtain ⟨hmode, -⟩ := ht.of_pos_iff.1 hpos
  obtain ⟨b, -, hstep⟩ := unlock_of_last hmode (ht.active_eq_one_iff.2 hone)
  obtain ⟨-, -, ho, -⟩ := hs.handOff (b := b)
  rw [← hstep] at ho
  intro out
  have hcounted : out.after.lock.granted.toNat =
      (c.lock.unlock m).lock.granted.toNat + out.returned.length := ho.counted
  obtain ⟨mode, granted, signals, -, hsignals, hlock, -, hhands⟩ := hs.vacated b
  rw [← hstep] at hsignals hlock
  have hgranted : (c.lock.unlock m).lock.granted = granted := congrArg QuotaLock.granted hlock
  rw [hcounted, hgranted]
  have hzero (h0 : granted = 0) : granted.toNat + out.returned.length ≤
      max out.returned.length c.lock.writeQuota.toNat := by
    rw [h0]
    change 0 + _ ≤ _
    omega
  rcases hhands with _ | ⟨-, ⟨h0, -⟩ | ⟨rfl, -, hquota⟩⟩ | _
  · exact hzero rfl
  · exact hzero h0
  · have hwoken : out.returned.length ≤ 1 := by
      have hle := Contended.length_returned_le (F := Fault) (c.lock.unlock m).lock
        (Contended.wake c.sleepers (c.lock.unlock m).signals).1
      rw [hsignals, Contended.wake_singleton] at hle
      have hsplit := Contended.length_split_one c.sleepers .write
      have hreturned : out.returned.length =
          (Contended.resumeAll (F := Fault) (c.lock.unlock m).lock
            ((Signal.one .write).split c.sleepers).1).returned.length := by
        change (Contended.settle (c.lock.unlock m) c.sleepers).returned.length = _
        rw [Contended.settle, hsignals, Contended.wake_singleton]
      omega
    rw [UInt32.lt_iff_toNat_lt] at hquota
    dsimp only at hquota ⊢
    omega
  · exact hzero rfl

end Demands

/-- A move that gives back and converts only what is there. Before it fewer than 2^32 - 1 grants are
out and fewer than 2^32 - 1 calls outstanding. -/
structure Lawful (s : Situation QuotaLock Mode) (move : Situation.Move QuotaLock Mode Fault)
    (t : Situation QuotaLock Mode) : Prop where
  permits : ∀ r, s.guarded.demand? move.op = some (.request r) → s.holds.Permits r
  held : s.holds.total < 2 ^ 32 - 1
  outstanding : s.outstanding move.op < 2 ^ 32 - 1

def Flawless (s : Situation QuotaLock Mode) (move : Situation.Move QuotaLock Mode Fault)
    (t : Situation QuotaLock Mode) : Prop :=
  Lawful s move t ∧ move.report.faultless = true

section Moves

variable {s t : Situation QuotaLock Mode} {move : Situation.Move QuotaLock Mode Fault}
  {moves : List (Situation.Move QuotaLock Mode Fault)}

theorem Steady.serves (hs : Steady s.holds s.calls) (hstep : Situation.Step s move t)
    (hl : Lawful s move t) {d : Demand Caller} (hd : s.guarded.demand? move.op = some d) :
    ∃ sleepers, sleepers.Perm s.calls.sleepers ∧
      ∃ out : Outcome QuotaLock Mode Fault Caller,
        out = Contended.serve { s.calls with sleepers } d ∧
        move.report.faultless = out.faultless ∧ move.grants = out.grants d ∧
        t.calls = out.after ∧ t.holds = out.settle d s.holds ∧
        ∀ f, move.report.answer = .reply (.fault f) → out.reply = .fault f := by
  obtain ⟨sleepers, hp, out, hout, -, hserved, hfails⟩ := hstep.demands hd
  refine ⟨sleepers, hp, out, hout, ?_⟩
  cases hreply : out.reply.faulted with
  | false =>
    obtain ⟨hcalls, hholds, hreturned, hmet, hanswer⟩ := hserved hreply
    refine ⟨?_, ?_, hcalls, hholds, ?_⟩
    · rw [Guarded.Report.faultless, Outcome.faultless, hanswer, hreply, hreturned]
    · rw [Situation.Move.grants, Guarded.Report.grants, Outcome.grants,
        Guarded.seeks_of_demand hd, hmet, hanswer, hreply, hreturned]
    · intro f hfault
      rw [hfault] at hanswer
      cases hanswer
  | true =>
    obtain ⟨f, hf⟩ : ∃ f, out.reply = .fault f := by
      cases hout : out.reply <;> rw [hout] at hreply <;> first | exact ⟨_, rfl⟩ | cases hreply
    obtain ⟨hanswer, hholds, hcalls⟩ := hfails f hf
    have hconverts : Guarded.convertsFrom d = none := by
      cases d with
      | call _ _ => rfl
      | request r =>
        have hnever (hr : r = .upgrade ∨ r = .downgrade) : False := by
          have hok := (hs.perm hp).conversion_replies (hl.permits r hd) hr
          rw [hout] at hreply
          exact Bool.noConfusion (hreply.symm.trans hok)
        cases r with
        | tryLock _ => rfl
        | unlock _ => rfl
        | upgrade => exact (hnever (.inl rfl)).elim
        | downgrade => exact (hnever (.inr rfl)).elim
    obtain ⟨hcalls, hreturned⟩ : t.calls = out.after ∧ move.report.returned = out.returned := by
      rcases hcalls with hcalls | ⟨m, hm, -⟩
      · exact hcalls
      · rw [hconverts] at hm
        cases hm
    refine ⟨?_, ?_, hcalls, ?_, ?_⟩
    · rw [Guarded.Report.faultless, Outcome.faultless, hanswer, hf]
      rfl
    · rw [Situation.Move.grants, Guarded.Report.grants, Outcome.grants,
        Guarded.seeks_of_demand hd, hanswer, hf, hreturned]
      rfl
    · rw [hholds, hreturned, Outcome.settle, hf]
      rfl
    · intro f' hfault
      rw [hanswer] at hfault
      cases hfault
      exact hf

theorem Lawful.room (hl : Lawful s move t) : s.calls.sleepers.length + 1 < 2 ^ 32 := by
  have houtstanding := hl.outstanding
  rw [Situation.outstanding] at houtstanding
  omega

theorem Lawful.vacancy (hl : Lawful s move t) : s.holds.total + 1 < 2 ^ 32 := by
  have hheld := hl.held
  omega

theorem Steady.flawless_step (hs : Steady s.holds s.calls) (hstep : Situation.Step s move t)
    (hf : Flawless s move t) : Steady t.holds t.calls ∧
      t.calls.lock.granted.toNat ≤ s.calls.lock.granted.toNat + move.grants := by
  obtain ⟨hl, hfaultless⟩ := hf
  cases hd : s.guarded.demand? move.op with
  | none =>
    obtain ⟨sleepers, hp, hcalls, hholds, -⟩ := hstep.denied hd
    rw [hcalls, hholds]
    exact ⟨hs.perm hp, Nat.le_add_right _ _⟩
  | some d =>
    obtain ⟨sleepers, hp, out, hout, hsame, hgrants, hcalls, hholds, -⟩ := hs.serves hstep hl hd
    have hroom : sleepers.length + 1 < 2 ^ 32 := hp.length_eq ▸ hl.room
    rw [hsame, hout] at hfaultless
    have hserved := (hs.perm hp).served_of_faultless hl.vacancy hroom d
      (fun r hr ↦ hl.permits r (hr ▸ hd)) hfaultless
    rw [← hout] at hserved
    rw [hcalls, hholds, hgrants]
    exact ⟨hserved.steady, hserved.counted⟩

theorem Steady.faultless_move_iff (hs : Steady s.holds s.calls) (hstep : Situation.Step s move t)
    (hl : Lawful s move t) : move.report.faultless = true ↔
      (∃ m, s.guarded.demand? move.op = some (.request (.unlock m))) ∨
        s.calls.lock.granted.toNat + move.grants < 2 ^ 32 := by
  cases hd : s.guarded.demand? move.op with
  | none =>
    obtain ⟨sleepers, hp, -, -, hreturned, denial, hanswer⟩ := hstep.denied hd
    refine iff_of_true ?_ (.inr ?_)
    · rw [Guarded.Report.faultless, hanswer, hreturned]
      rfl
    · rw [Situation.Move.grants, Guarded.Report.grants, hanswer, hreturned]
      simpa [Guarded.Answer.met, Guarded.Answer.faulted] using s.calls.lock.granted.toNat_lt
  | some d =>
    obtain ⟨sleepers, hp, out, hout, hsame, hgrants, -⟩ := hs.serves hstep hl hd
    have hroom : sleepers.length + 1 < 2 ^ 32 := hp.length_eq ▸ hl.room
    have hiff := (hs.perm hp).faultless_iff hl.vacancy hroom d
      (fun r hr ↦ hl.permits r (hr ▸ hd))
    rw [hsame, hgrants, hout, hiff]
    simp only [Option.some.injEq]

/-- As long as nobody has faulted, a lawful move faults exactly when it makes more grants than there
are counts left. If it is its caller who faults, the lock counts somebody inside to whom it was not
granted. Whenever the lock is free the count starts again, and a last release that hands the lock on
leaves at most the grants it makes or the write quota. But readers who take turns to hold it use up
the counts, however few of them there are at a time. -/
theorem faults_when_full (q : Quotas)
    (hrun : Situation.Run Flawless (Situation.fresh (QuotaLock.ofQuotas q)) moves s)
    (hstep : Situation.Step s move t) (hlawful : Lawful s move t) :
    let l := s.calls.lock
    let l' := t.calls.lock
    let Releases (m : Mode) : Prop := s.guarded.demand? move.op = some (.request (.unlock m))
    l.active.toNat = s.holds.total ∧ (s.holds.total = 0 → l.granted = 0) ∧
      (move.report.faultless = true ↔
        (∃ m, Releases m) ∨ l.granted.toNat + move.grants < 2 ^ 32) ∧
      (move.report.faultless = true → l'.granted.toNat ≤ l.granted.toNat + move.grants) ∧
      (∀ m, Releases m → s.holds.total = 1 →
        l'.granted.toNat ≤ max move.grants l.writeQuota.toNat) ∧
      ∀ f, move.report.answer = .reply (.fault f) →
        f = .overflow .add ∧ l.granted.toNat = 2 ^ 32 - 1 ∧ t.holds = s.holds ∧
          l'.active.toNat = t.holds.total + 1 := by
  intro l l' Releases
  have hs : Steady s.holds s.calls := hrun.preserves (I := fun s ↦ Steady s.holds s.calls)
    (fun _ _ _ hs hstep hflawless ↦ (hs.flawless_step hstep hflawless).1) (steady_fresh q)
  refine ⟨hs.tallied.active, fun hfree ↦ (hs.idle hfree).1, hs.faultless_move_iff hstep hlawful,
    fun hfaultless ↦ (hs.flawless_step hstep ⟨hlawful, hfaultless⟩).2, ?_, ?_⟩
  · intro m hd hone
    obtain ⟨sleepers, hp, out, hout, -, hgrants, hcalls, -⟩ := hs.serves hstep hlawful hd
    have hlast := (hs.perm hp).granted_of_last (hlawful.permits _ hd) hone
    have hreturned : out.grants (.request (.unlock m)) = out.returned.length := Nat.zero_add _
    rw [hgrants, hreturned, hout]
    simp only [l', hcalls, hout]
    exact hlast
  · intro f hfault
    obtain ⟨d, hd⟩ : ∃ d, s.guarded.demand? move.op = some d := by
      refine Option.ne_none_iff_exists'.1 fun hd ↦ ?_
      obtain ⟨-, -, -, -, -, denial, hanswer⟩ := hstep.denied hd
      rw [hfault] at hanswer
      cases hanswer
    obtain ⟨sleepers, hp, out, hout, -, -, hcalls, hholds, hanswer⟩ := hs.serves hstep hlawful hd
    have hroom : sleepers.length + 1 < 2 ^ 32 := hp.length_eq ▸ hlawful.room
    have hreply := hanswer f hfault
    rw [hout] at hreply
    obtain ⟨hf, hfull, hreturned, hactive⟩ := (hs.perm hp).half_made hlawful.vacancy hroom d
      (fun r hr ↦ hlawful.permits r (hr ▸ hd)) hreply
    have hheld : t.holds = s.holds := by
      rw [hholds, hout, Outcome.settle, hreply, hreturned]
      rfl
    refine ⟨hf, hfull, hheld, ?_⟩
    rw [hheld]
    simp only [l', hcalls, hout]
    exact hactive

theorem faults_when_full_of_two :
    ∃ moves s move t, Situation.Run Flawless (Situation.fresh (QuotaLock.ofQuotas {})) moves s ∧
      Situation.Step s move t ∧ Lawful s move t ∧ s.holds = ⟨1, 0⟩ ∧
      s.calls.lock.active.toNat = 1 ∧ move.report.faultless = true := by
  obtain ⟨moves, s, move, t, hrun, hstep, hlawful, hholds, hcount⟩ :
      ∃ moves s move t, Situation.Run Flawless (Situation.fresh (QuotaLock.ofQuotas {})) moves s ∧
        Situation.Step s move t ∧ Lawful s move t ∧ s.holds = ⟨1, 0⟩ ∧
        s.calls.lock.granted.toNat + move.grants = 2 :=
    ⟨_, _, _, _,
      .cons (.of_request _ (.tryLock .read) rfl)
        ⟨⟨fun r hr ↦ by cases hr; trivial, by decide, by decide⟩, rfl⟩ (.nil _),
      .of_request _ (.tryLock .read) rfl,
      ⟨fun r hr ↦ by cases hr; trivial, by decide, by decide⟩, rfl, rfl⟩
  obtain ⟨hactive, -, hfaultless, -⟩ := faults_when_full {} hrun hstep hlawful
  rw [hholds] at hactive
  exact ⟨moves, s, move, t, hrun, hstep, hlawful, hholds, hactive,
    hfaultless.2 (.inr (by rw [hcount]; decide))⟩

def readBy (active granted : UInt32) : QuotaLock :=
  { QuotaLock.ofQuotas {} with mode := some .read, active, granted }

def turn : List Guarded.Operation := [.request (.tryLock .read), .request (.unlock .read)]

theorem tryLock_readBy (granted : UInt32) (hfit : granted.toNat + 1 < 2 ^ 32) :
    (readBy 1 granted).tryLock .read = .done .done (readBy 2 (granted + 1)) := by
  have hactive : Checked.increment (readBy 1 granted).active = .ok 2 := rfl
  have hgranted : Checked.increment (readBy 1 granted).granted = .ok (granted + 1) :=
    Checked.increment_of_lt hfit
  rw [tryLock, bidAsNewcomer_of_welcome rfl]
  simp only [grant, hactive, countGrant, hgranted]
  rfl

theorem unlock_readBy (granted : UInt32) :
    (readBy 2 granted).unlock .read = .done .done (readBy 1 granted) := by
  have hleft : (2 : UInt32) - 1 = 1 := by decide
  refine (unlock_of_shared rfl (show (2 : UInt32) ≠ 0 by decide)
    (show (2 : UInt32) ≠ 1 by decide)).trans ?_
  exact congrArg (fun active ↦ Step.done Attempt.done (readBy active granted)) hleft

def heldByOne (granted : UInt32) : Situation QuotaLock Mode :=
  { guarded.calls.lock := readBy 1 granted, holds := ⟨1, 0⟩ }

theorem lawful_heldByOne {granted : UInt32} {report t} :
    Lawful (heldByOne granted) ⟨.request (.tryLock .read), report⟩ t := by
  refine ⟨?_, show 1 < 2 ^ 32 - 1 by decide, show 0 + 0 < 2 ^ 32 - 1 by decide⟩
  intro r hd
  cases hd
  trivial

theorem turn_run (granted : UInt32) (hfit : granted.toNat + 1 < 2 ^ 32) :
    ∃ moves, Situation.Run Flawless (heldByOne granted) moves (heldByOne (granted + 1)) ∧
      moves.map (·.op) = turn := by
  have hjoin := Situation.Step.of_request (heldByOne granted) (.tryLock .read)
    (Contended.request_of_done (tryLock_readBy granted hfit))
  refine ⟨_, .cons hjoin ⟨lawful_heldByOne, rfl⟩ <| .cons
    (.of_request _ (.unlock .read) (Contended.request_of_done (unlock_readBy (granted + 1))))
    ⟨⟨?_, show 2 < 2 ^ 32 - 1 by decide, show 0 + 0 < 2 ^ 32 - 1 by decide⟩, rfl⟩ <| .nil _, rfl⟩
  intro r hd
  cases hd
  exact Nat.two_pos

/-- Two readers at a time are enough to use up the counts: the one who comes after 2^32 - 1 grants
faults, and leaves the lock with two readers inside of which one holds it. -/
theorem half_made_after_turns :
    ∃ moves s move t, Situation.Run Flawless (Situation.fresh (QuotaLock.ofQuotas {})) moves s ∧
      Situation.Step s move t ∧ Lawful s move t ∧
      moves.map (·.op) = .request (.tryLock .read) :: (List.replicate (2 ^ 32 - 2) turn).flatten ∧
      move.op = .request (.tryLock .read) ∧
      move.report.answer = .reply (.fault (.overflow .add)) ∧
      s.calls.lock.active = 1 ∧ s.holds = ⟨1, 0⟩ ∧
      t.calls.lock.active = 2 ∧ t.holds = ⟨1, 0⟩ := by
  have hnext (i : Nat) (hi : i < 2 ^ 32 - 2) :
      ∃ moves, Situation.Run Flawless (heldByOne (UInt32.ofNat (i + 1))) moves
        (heldByOne (UInt32.ofNat (i + 1 + 1))) ∧ moves.map (·.op) = turn := by
    have hcount : (UInt32.ofNat (i + 1)).toNat = i + 1 := UInt32.toNat_ofNat_of_lt'
      (show i + 1 < 2 ^ 32 by omega)
    rw [UInt32.ofNat_add (i + 1) 1]
    exact turn_run _ (by omega)
  obtain ⟨moves, hrun, hops⟩ := Situation.Run.rounds hnext
  let last : UInt32 := UInt32.ofNat (2 ^ 32 - 2 + 1)
  have hfull : ¬ last.toNat + 1 < 2 ^ 32 := by decide
  obtain ⟨n, hn, hfault⟩ := tryLock_of_full (l := readBy 1 last) (m := .read) rfl hfull
  obtain rfl := hn (show 1 + 1 < 2 ^ 32 by decide)
  have hfirst : Situation.Step (Situation.fresh (QuotaLock.ofQuotas {}))
      ⟨.request (.tryLock .read), _⟩ (heldByOne 1) := .of_request _ (.tryLock .read) rfl
  refine ⟨_, _, _, _, .cons hfirst ⟨⟨?_, by decide, by decide⟩, rfl⟩ hrun,
    .of_request _ (.tryLock .read) (Contended.request_of_fault hfault), lawful_heldByOne, ?_, rfl,
    rfl, rfl, rfl, rfl, rfl⟩
  · intro r hd
    cases hd
    trivial
  · rw [List.map_cons, hops]

end Moves

end SyncKit.QuotaLock
