import SyncKit.Lock.Ticket
import SyncKit.Proofs.Lock.Admission
import SyncKit.Proofs.Quota.Serving

namespace SyncKit

/-- The lock would have had to wait. An upgrade of a guard says so in a way of its own. -/
def Guarded.Answer.WouldBlock {F : Type} : Answer F → Prop
  | .reply .wouldBlock => True
  | .refused => True
  | _ => False

theorem Guarded.Answer.WouldBlock.not_met {F : Type} {answer : Answer F} (h : answer.WouldBlock) :
    answer.met = false ∧ answer.faulted = false := by
  cases answer with
  | reply r => cases r <;> first | exact h.elim | exact ⟨rfl, rfl⟩
  | upgraded => exact h.elim
  | refused => exact ⟨rfl, rfl⟩
  | denied d => exact h.elim

namespace Situation

section Trace

variable {L W F : Type} [Place W] [RawLock L W F]

/-- A move whose request leaves the lock as it was and signals nobody, so that everybody holds it or
sleeps on as before. Only when the conversion of a guard faults does something follow: the guard is
dropped. -/
structure LeavesNoTrace (r : Request) (s : Situation L W) (move : Move L W F)
    (t : Situation L W) : Prop where
  lock : (RawLock.request (F := F) r s.calls.lock).lock = s.calls.lock
  silent : (RawLock.request (F := F) r s.calls.lock).signals = []
  kept : ∃ sleepers, sleepers.Perm s.calls.sleepers ∧
    (t.calls = { s.calls with sleepers } ∧ t.holds = s.holds ∧ move.report.returned = [] ∨
      ∃ m, move.op.converts = true ∧ move.report.answer.faulted = true ∧
        let dropped := Contended.request (F := F) (.unlock m) { s.calls with sleepers }
        t.calls = dropped.after ∧ move.report.returned = dropped.returned)

variable {s t : Situation L W} {move : Move L W F} {r : Request} {f : F}

theorem LeavesNoTrace.lock_eq (h : LeavesNoTrace r s move t) (hc : move.op.converts = false) :
    t.calls.lock = s.calls.lock ∧ move.report.returned = [] := by
  obtain ⟨sleepers, -, ⟨hcalls, -, hreturned⟩ | ⟨m, hconverts, -⟩⟩ := h.kept
  · exact ⟨by rw [hcalls], hreturned⟩
  · rw [hc] at hconverts
    cases hconverts

theorem Step.answers (h : Step s move t) (hd : s.guarded.demand? move.op = some (.request r)) :
    let step := RawLock.request (F := F) r s.calls.lock
    step.result = .ok .done ∧ move.report.answer.met = true ∨
      step.result = .ok .wouldBlock ∧ move.report.answer.faulted = false ∨
      ∃ f, step.result = .error f ∧ move.report.answer = .reply (.fault f) := by
  intro step
  obtain ⟨sleepers, -, out, hout, -, hserved, hfails⟩ := h.demands hd
  have hreply : out.reply = .ofAttempt step.result := congrArg Outcome.reply hout
  cases hresult : step.result with
  | ok a =>
    rw [hresult] at hreply
    obtain ⟨-, -, -, hmet, hfaulted⟩ := hserved (by rw [hreply]; cases a <;> rfl)
    rw [hreply] at hmet
    cases a with
    | done => exact .inl ⟨rfl, hmet⟩
    | wouldBlock => exact .inr (.inl ⟨rfl, hfaulted⟩)
  | error f =>
    rw [hresult] at hreply
    exact .inr (.inr ⟨f, rfl, (hfails f hreply).1⟩)

theorem Step.request_wouldBlock (h : Step s move t)
    (hd : s.guarded.demand? move.op = some (.request r)) (ha : move.report.answer.WouldBlock) :
    (RawLock.request (F := F) r s.calls.lock).result = .ok .wouldBlock := by
  obtain ⟨hmet, hfaulted⟩ := ha.not_met
  obtain ⟨-, hmet'⟩ | ⟨hblock, -⟩ | ⟨f, -, hfault⟩ := h.answers hd
  · rw [hmet] at hmet'
    cases hmet'
  · exact hblock
  · rw [hfault] at hfaulted
    cases hfaulted

theorem Step.request_fault (h : Step s move t)
    (hd : s.guarded.demand? move.op = some (.request r))
    (ha : move.report.answer = .reply (.fault f)) :
    (RawLock.request (F := F) r s.calls.lock).result = .error f := by
  obtain ⟨-, hmet⟩ | ⟨-, hfaulted⟩ | ⟨f', herror, hfault⟩ := h.answers hd
  · rw [ha] at hmet
    cases hmet
  · rw [ha] at hfaulted
    cases hfaulted
  · cases hfault.symm.trans ha
    exact herror

theorem Step.leavesNoTrace_of_wouldBlock (h : Step s move t)
    (hd : s.guarded.demand? move.op = some (.request r))
    (hstep : RawLock.request r s.calls.lock = Step.done (F := F) .wouldBlock s.calls.lock) :
    LeavesNoTrace r s move t := by
  refine ⟨by rw [hstep]; rfl, by rw [hstep]; rfl, ?_⟩
  obtain ⟨sleepers, hp, out, hout, -, hserved, -⟩ := h.demands hd
  have hout' : out = { reply := .wouldBlock, after := { s.calls with sleepers } } :=
    hout.trans (Contended.request_of_done (c := { s.calls with sleepers }) hstep)
  rw [hout'] at hserved
  obtain ⟨hcalls, hholds, hreturned, -, -⟩ := hserved rfl
  exact ⟨sleepers, hp, .inl ⟨hcalls, hholds, hreturned⟩⟩

theorem Step.leavesNoTrace_of_fault (h : Step s move t)
    (hd : s.guarded.demand? move.op = some (.request r))
    (hstep : RawLock.request r s.calls.lock = Step.fault f s.calls.lock) :
    LeavesNoTrace r s move t := by
  have hfault (sleepers : List (Sleeper Caller W)) :
      Contended.serve { s.calls with sleepers } (.request r) =
        { reply := .fault f, after := { s.calls with sleepers } } :=
    Contended.request_of_fault (c := { s.calls with sleepers }) hstep
  refine ⟨by rw [hstep]; rfl, by rw [hstep]; rfl, ?_⟩
  cases hc : move.op.converts with
  | false =>
    obtain ⟨sleepers, hp, out, hout, -, hcalls, hholds, hreturned⟩ := h.echoes hd hc
    rw [hout, hfault] at hcalls hholds hreturned
    exact ⟨sleepers, hp, .inl ⟨hcalls, hholds, hreturned⟩⟩
  | true =>
    obtain ⟨sleepers, hp, out, hout, -, -, hfails⟩ := h.demands hd
    rw [hout, hfault] at hfails
    obtain ⟨hanswer, hholds, ⟨hcalls, hreturned⟩ | ⟨m, -, hcalls, hreturned⟩⟩ := hfails f rfl
    · rw [hreturned] at hholds
      exact ⟨sleepers, hp, .inl ⟨hcalls, hholds, hreturned⟩⟩
    · exact ⟨sleepers, hp, .inr ⟨m, rfl, by rw [hanswer]; rfl, hcalls, hreturned⟩⟩

end Trace

end Situation

namespace QuotaLock

variable {l : QuotaLock}

theorem grant_cases (m : Mode) (l : QuotaLock) :
    (∃ l', l.grant m = .done .granted l') ∨ ∃ o l', l.grant m = .fault (.overflow o) l' := by
  have hcount (l : QuotaLock) :
      (∃ l', l.countGrant = .done .granted l') ∨
        ∃ o l', l.countGrant = .fault (.overflow o) l' := by
    unfold countGrant
    split
    · exact .inl ⟨_, rfl⟩
    · exact .inr ⟨_, _, rfl⟩
  cases m with
  | read =>
    simp only [grant]
    split
    · exact hcount _
    · exact .inr ⟨_, _, rfl⟩
  | write => exact hcount _

theorem tryLock_cases (m : Mode) (l : QuotaLock) :
    l.tryLock m = .done .wouldBlock l ∨ (∃ l', l.tryLock m = .done .done l') ∨
      ∃ o l', l.tryLock m = .fault (.overflow o) l' := by
  cases hw : l.welcomes m with
  | false => exact .inl (tryLock_of_unwelcome hw)
  | true =>
    right
    rw [tryLock, bidAsNewcomer_of_welcome hw]
    obtain ⟨l', hgranted⟩ | ⟨o, l', hfault⟩ := grant_cases m l
    · exact .inl ⟨l', by rw [hgranted]; rfl⟩
    · exact .inr ⟨o, l', by rw [hfault]; rfl⟩

/-- A request that neither succeeds nor runs out of numbers was refused or was misuse, and then it
has not touched the lock. -/
theorem request_cases (r : Request) (l : QuotaLock) :
    l.request r = .done .wouldBlock l ∨ (∃ misuse, l.request r = l.misused misuse) ∨
      (l.request r).result = .ok .done ∨ ∃ o, (l.request r).result = .error (.overflow o) := by
  cases r with
  | tryLock m =>
    obtain hrefused | ⟨l', hdone⟩ | ⟨o, l', hfault⟩ := tryLock_cases m l
    · exact .inl hrefused
    · exact .inr (.inr (.inl (congrArg Step.result hdone)))
    · exact .inr (.inr (.inr ⟨o, congrArg Step.result hfault⟩))
  | unlock m =>
    by_cases hn : l.active = 0 ∨ l.mode ≠ some m
    · exact .inr (.inl ⟨_, unlock_of_not_held hn⟩)
    · obtain ⟨hactive, hmode⟩ := not_or.1 hn
      rw [Ne, Decidable.not_not] at hmode
      right; right; left
      by_cases hone : l.active = 1
      · obtain ⟨b, -, hstep⟩ := unlock_of_last hmode hone
        obtain ⟨_, _, _, _, hhand, -⟩ :=
          handOff_hands (l := { l with active := 0, mode := some b, returnTo := none }) rfl
        rw [request, hstep, hhand]
      · rw [request, unlock_of_shared hmode hactive hone]
        rfl
  | upgrade =>
    by_cases hn : l.mode ≠ some .read ∨ l.active = 0
    · exact .inr (.inl ⟨_, upgrade_of_not_held hn⟩)
    · obtain ⟨hmode, hactive⟩ := not_or.1 hn
      rw [Ne, Decidable.not_not] at hmode
      by_cases hone : l.active = 1
      · exact .inr (.inr (.inl (congrArg Step.result (upgrade_of_alone hmode hone))))
      · exact .inl (upgrade_of_shared hmode hactive hone)
  | downgrade =>
    by_cases hn : l.mode ≠ some .write ∨ l.active ≠ 1
    · exact .inr (.inl ⟨_, downgrade_of_not_held hn⟩)
    · obtain ⟨hmode, hone⟩ := not_or.1 hn
      rw [Ne, Decidable.not_not] at hmode hone
      exact .inr (.inr (.inl (congrArg Step.result (downgrade_eq hmode hone))))

theorem request_of_wouldBlock {r : Request} (h : (l.request r).result = .ok .wouldBlock) :
    l.request r = .done .wouldBlock l := by
  obtain hstep | ⟨misuse, hstep⟩ | hdone | ⟨o, hfault⟩ := request_cases r l
  · exact hstep
  · rw [hstep] at h
    cases h
  · rw [hdone] at h
    cases h
  · rw [hfault] at h
    cases h

theorem request_of_notHeld {r : Request} {misuse : Misuse} {holding : Holding}
    (h : (l.request r).result = .error (.notHeld misuse holding)) :
    l.request r = .fault (.notHeld misuse holding) l := by
  obtain hstep | ⟨misuse, hstep⟩ | hdone | ⟨o, hfault⟩ := request_cases r l
  · rw [hstep] at h
    cases h
  · rw [hstep] at h ⊢
    cases h
    rfl
  · rw [hdone] at h
    cases h
  · rw [hfault] at h
    cases h

end QuotaLock

namespace TicketLock

variable {l : TicketLock}

/-- A claim that meets a writer inside is not the last one on the word, whatever the word is. -/
theorem withdraw_claimed (hw : l.writerInside = true) :
    ({ l with word := l.word + readerUnit } : TicketLock).withdraw = (l, []) := by
  have hne : l.word + readerUnit ≠ readerUnit := by
    intro he
    have hzero : l.word = 0 := by simpa using he
    simp [writerInside, hzero] at hw
  simp [withdraw, hne, Int32.add_sub_cancel]

theorem tryRead_of_writerInside (hw : l.writerInside = true) :
    l.tryRead = .done .wouldBlock l := by
  simp [tryRead, hw, withdraw_claimed hw, Step.done]

theorem request_of_wouldBlock {r : Request} (h : (l.request r).result = .ok .wouldBlock) :
    l.request r = .done .wouldBlock l := by
  cases r with
  | tryLock m =>
    cases m with
    | read =>
      simp only [request] at h ⊢
      cases hw : l.writerInside with
      | true => exact tryRead_of_writerInside hw
      | false =>
        simp only [tryRead, hw] at h ⊢
        split
        · rfl
        · next hq => simp [hq, Step.done] at h
    | write =>
      simp only [request, tryWrite] at h ⊢
      split
      · next hzero => simp [hzero, Step.done] at h
      · rfl
  | unlock m =>
    cases m with
    | read =>
      simp only [request, unlockRead] at h
      split at h <;> cases h
    | write =>
      simp only [request, unlockWrite] at h
      split at h
      · split at h <;> cases h
      · cases h
  | upgrade =>
    simp only [request, upgrade] at h ⊢
    split
    · next hone => simp [hone, Step.done] at h
    · next hone =>
      split
      · rfl
      · next hheld => simp [hone, hheld, Step.fault] at h
  | downgrade =>
    simp only [request, downgrade] at h
    split at h <;> cases h

theorem upgrade_of_fault {f : Fault} (h : l.upgrade.result = .error f) :
    l.upgrade = .fault f l := by
  unfold upgrade at h ⊢
  split
  · next hone => simp [hone, Step.done] at h
  · next hone =>
    split
    · next hheld => simp [hone, hheld, Step.done] at h
    · next hheld =>
      simp [hone, hheld, Step.fault] at h
      rw [← h]

end TicketLock

section Moves

open Situation (Move LeavesNoTrace)

/-- Whatever happened to a lock before, an attempt that would block leaves it alone. So does misuse
of a quota lock, and a misused upgrade of a ticket lock. -/
theorem failures_leave_no_trace :
    (∀ {s t : Situation QuotaLock Mode} {move : Move QuotaLock Mode QuotaLock.Fault} {r : Request},
      Situation.Step s move t → s.guarded.demand? move.op = some (.request r) →
        (move.report.answer.WouldBlock ∨
          ∃ misuse holding, move.report.answer = .reply (.fault (.notHeld misuse holding))) →
        LeavesNoTrace r s move t) ∧
    ∀ {s t : Situation TicketLock TicketLock.Wait}
      {move : Move TicketLock TicketLock.Wait TicketLock.Fault} {r : Request},
      Situation.Step s move t → s.guarded.demand? move.op = some (.request r) →
        (move.report.answer.WouldBlock ∨
          r = .upgrade ∧ ∃ f, move.report.answer = .reply (.fault f)) →
        LeavesNoTrace r s move t := by
  constructor
  · intro s t move r hstep hd hfailed
    obtain hblock | ⟨misuse, holding, hfault⟩ := hfailed
    · exact hstep.leavesNoTrace_of_wouldBlock hd
        (QuotaLock.request_of_wouldBlock (hstep.request_wouldBlock hd hblock))
    · exact hstep.leavesNoTrace_of_fault hd
        (QuotaLock.request_of_notHeld (hstep.request_fault hd hfault))
  · intro s t move r hstep hd hfailed
    obtain hblock | ⟨rfl, f, hfault⟩ := hfailed
    · exact hstep.leavesNoTrace_of_wouldBlock hd
        (TicketLock.request_of_wouldBlock (hstep.request_wouldBlock hd hblock))
    · exact hstep.leavesNoTrace_of_fault hd
        (TicketLock.upgrade_of_fault (hstep.request_fault hd hfault))

theorem failures_leave_no_trace_on_damaged :
    (∃ moves s, ∃ misuse : Move QuotaLock Mode QuotaLock.Fault, ∃ t,
      Situation.Run (fun _ _ _ ↦ True) (Situation.fresh (QuotaLock.ofQuotas {})) moves s ∧
        s.holds = ⟨0, 1⟩ ∧ s.calls.sleeping .read = 1 ∧ Situation.Step s misuse t ∧
        misuse.op = .request (.unlock .read) ∧ t.calls.lock = s.calls.lock ∧
        misuse.report.returned = []) ∧
    ∃ damage s, ∃ refusal : Move TicketLock TicketLock.Wait TicketLock.Fault, ∃ t,
      Situation.Step (Situation.fresh (TicketLock.ofQuotas {}).1) damage s ∧
        damage.report.answer = .reply (.fault (TicketLock.Fault.notHeld (.release .write))) ∧
        s.calls.lock.word = -1 ∧ Situation.Step s refusal t ∧
        refusal.op = .request (.tryLock .read) ∧ t.calls.lock = s.calls.lock ∧
        refusal.report.returned = [] := by
  refine ⟨?_, ?_⟩
  · obtain ⟨moves, s, misuse, t, hrun, hholds, hasleep, hstep, hop, hd, hanswer⟩ :
        ∃ moves s, ∃ misuse : Move QuotaLock Mode QuotaLock.Fault, ∃ t,
          Situation.Run (fun _ _ _ ↦ True) (Situation.fresh (QuotaLock.ofQuotas {})) moves s ∧
            s.holds = ⟨0, 1⟩ ∧ s.calls.sleeping .read = 1 ∧ Situation.Step s misuse t ∧
            misuse.op = .request (.unlock .read) ∧
            s.guarded.demand? misuse.op = some (.request (.unlock .read)) ∧
            misuse.report.answer = .reply (.fault
              (.notHeld (.release .read) s.calls.lock.holding)) :=
      ⟨_, _, _, _,
        .cons (.intro (.lock .write "writer") (.refl _) rfl) trivial <|
        .cons (.intro (.lock .read "reader") (.refl _) rfl) trivial <|
        .nil _, rfl, rfl, .intro (.request (.unlock .read)) (.refl _) rfl, rfl, rfl, rfl⟩
    have htrace := failures_leave_no_trace.1 hstep hd (.inr ⟨_, _, hanswer⟩)
    obtain ⟨hlock, hreturned⟩ := htrace.lock_eq (by rw [hop]; rfl)
    exact ⟨moves, s, misuse, t, hrun, hholds, hasleep, hstep, hop, hlock, hreturned⟩
  · -- A write was given back that nobody held.
    obtain ⟨damage, s, refusal, t, hdamage, hfault, hword, hstep, hop, hd, hanswer⟩ :
        ∃ damage s, ∃ refusal : Move TicketLock TicketLock.Wait TicketLock.Fault, ∃ t,
          Situation.Step (Situation.fresh (TicketLock.ofQuotas {}).1) damage s ∧
            damage.report.answer =
              .reply (.fault (TicketLock.Fault.notHeld (.release .write))) ∧
            s.calls.lock.word = -1 ∧ Situation.Step s refusal t ∧
            refusal.op = .request (.tryLock .read) ∧
            s.guarded.demand? refusal.op = some (.request (.tryLock .read)) ∧
            refusal.report.answer = .reply .wouldBlock :=
      ⟨_, _, _, _, .intro (.request (.unlock .write)) (.refl _) rfl, rfl, rfl,
        .intro (.request (.tryLock .read)) (.refl _) rfl, rfl, rfl, rfl⟩
    have hblock : refusal.report.answer.WouldBlock := by rw [hanswer]; trivial
    have htrace := failures_leave_no_trace.2 hstep hd (.inl hblock)
    obtain ⟨hlock, hreturned⟩ := htrace.lock_eq (by rw [hop]; rfl)
    exact ⟨damage, s, refusal, t, hdamage, hfault, hword, hstep, hop, hlock, hreturned⟩

end Moves

end SyncKit
