import Mathlib.Algebra.Ring.Nat
import SyncKit.Proofs.Refusals
import SyncKit.Proofs.Ticket.Misuse

namespace SyncKit.TicketLock

variable {κ : Type}

def Wait.claims : Wait → Nat
  | .writerInside => 1
  | _ => 0

def claims (sleepers : List (Sleeper κ Wait)) : Nat := (sleepers.map (·.wait.claims)).sum

@[simp] theorem claims_nil : claims ([] : List (Sleeper κ Wait)) = 0 := rfl

@[simp] theorem claims_cons (s : Sleeper κ Wait) (ws : List (Sleeper κ Wait)) :
    claims (s :: ws) = s.wait.claims + claims ws := by simp [claims]

@[simp] theorem claims_append (xs ys : List (Sleeper κ Wait)) :
    claims (xs ++ ys) = claims xs + claims ys := by simp [claims]

theorem claims_perm {xs ys : List (Sleeper κ Wait)} (hp : xs.Perm ys) : claims xs = claims ys :=
  (hp.map _).sum_nat

/-- The word counts the writer, and two for each reader that is inside or has a claim, as far as its
numbers go. -/
structure Wraps (h : Holds) (n : Nat) (l : TicketLock) : Prop where
  alone : h.writes ≤ 1
  word : l.word = Int32.ofNat (2 * (h.reads + n) + h.writes)

namespace Wraps

variable {h : Holds} {n : Nat} {l : TicketLock}

theorem writerInside_eq (hw : Wraps h n l) : l.writerInside = decide (h.writes = 1) :=
  writerInside_of_word hw.word hw.alone

theorem writes_eq_one (hw : Wraps h n l) (hin : l.writerInside = true) : h.writes = 1 := by
  simpa [hw.writerInside_eq] using hin

/-- A word that is even says that no writer is inside, whatever it says of the readers. -/
theorem writes_eq_zero (hw : Wraps h n l) (hin : l.writerInside = false) : h.writes = 0 := by
  have hle := hw.alone
  have hne : h.writes ≠ 1 := by simpa [hw.writerInside_eq] using hin
  omega

theorem of_word_eq {l' : TicketLock} (hw : Wraps h n l) (he : l'.word = l.word) : Wraps h n l' :=
  ⟨hw.alone, he.trans hw.word⟩

theorem countReader {h' : Holds} {n' : Nat} {l' : TicketLock} (hw : Wraps h n l)
    (hwrites : h'.writes = h.writes) (hreads : h'.reads + n' = h.reads + n + 1)
    (he : l'.word = l.word + readerUnit) : Wraps h' n' l' where
  alone := hwrites ▸ hw.alone
  word := by
    rw [he, hw.word, ofNat_add_readerUnit, hreads, hwrites]
    exact congrArg Int32.ofNat (by omega)

theorem takeRead {l' : TicketLock} (hw : Wraps h n l) (he : l'.word = l.word + readerUnit) :
    Wraps (h.take .read) n l' := hw.countReader rfl (Nat.add_right_comm _ _ _) he

theorem claim {l' : TicketLock} (hw : Wraps h n l) (he : l'.word = l.word + readerUnit) :
    Wraps h (n + 1) l' := hw.countReader rfl rfl he

/-- A writer comes in when the word is zero, which it also is after enough readers. -/
theorem takeWrite {l' : TicketLock} (hw : Wraps h n l) (hzero : l.word = 0)
    (he : l'.word = writerBit) : Wraps (h.take .write) n l' := by
  have hnone := hw.writes_eq_zero (by rw [writerInside, hzero]; rfl)
  refine ⟨by simp [Holds.take, hnone], ?_⟩
  have hword : Int32.ofNat (2 * (h.reads + n) + h.writes) = 0 := hw.word.symm.trans hzero
  have hone : 2 * (h.reads + n) + (h.writes + 1) = 2 * (h.reads + n) + h.writes + 1 := by omega
  rw [he]
  simp only [Holds.take, hone, Int32.ofNat_add, hword]
  rfl

end Wraps

section Requests

variable {h : Holds} {n : Nat} {l : TicketLock}

theorem tryRead_of_done (hd : l.tryRead.result = .ok .done) :
    l.tryRead = .done .done { l with word := l.word + readerUnit } := by
  cases hw : l.writerInside with
  | true =>
    rw [tryRead_of_writerInside hw] at hd
    cases hd
  | false =>
    simp only [tryRead, hw] at hd ⊢
    split
    · next hq => simp [hq, Step.done] at hd
    · rfl

theorem tryWrite_of_done (hd : l.tryWrite.result = .ok .done) :
    l.word = 0 ∧ l.tryWrite = .done .done l.jumpQueue := by
  unfold tryWrite at hd ⊢
  split
  · next hzero => exact ⟨hzero, rfl⟩
  · next hbusy => simp [hbusy, Step.done] at hd

theorem unlockRead_of_done (hd : l.unlockRead.result = .ok .done) :
    l.readersInside = true ∧ l.unlockRead.lock.word = l.word - readerUnit := by
  simp only [unlockRead, withdraw] at hd ⊢
  split
  · next hin => exact ⟨hin, rfl⟩
  · next hout => simp [hout, Step.fault] at hd

theorem writerInside_of_unlockWrite (hd : l.unlockWrite.result = .ok .done) :
    l.writerInside = true := by
  cases hw : l.writerInside with
  | true => rfl
  | false => simp [unlockWrite, hw, Step.fault] at hd

theorem upgrade_of_done (hd : l.upgrade.result = .ok .done) :
    l.word = readerUnit ∧ l.upgrade = .done .done l.jumpQueue := by
  unfold upgrade at hd ⊢
  split
  · next hone => exact ⟨hone, rfl⟩
  · next hne =>
    rw [if_neg hne] at hd
    split at hd <;> cases hd

theorem downgrade_of_done (hd : l.downgrade.result = .ok .done) :
    l.writerInside = true ∧ l.downgrade.lock.word = l.word + readerUnit - writerBit := by
  simp only [downgrade] at hd ⊢
  split
  · next hin => exact ⟨hin, rfl⟩
  · next hout => simp [hout, Step.fault] at hd

namespace Wraps

/-- Without claims, no request goes through that gives back or converts what is not there. -/
theorem permits (hw : Wraps h 0 l) {r : Request} (hd : (l.request r).result = .ok .done) :
    h.Permits r := by
  have hle := hw.alone
  match r with
  | .tryLock _ => trivial
  | .unlock .read =>
    refine Nat.pos_of_ne_zero fun hnone ↦ ?_
    have hr : h.reads = 0 := hnone
    have hword : l.word = Int32.ofNat (2 * 0 + h.writes) := by simpa [hr] using hw.word
    have hin := readersInside_of_word hword hle (by omega)
    rw [(unlockRead_of_done hd).1] at hin
    cases hin
  | .unlock .write =>
    have hone := hw.writes_eq_one (writerInside_of_unlockWrite hd)
    exact Nat.lt_of_lt_of_eq Nat.one_pos hone.symm
  | .upgrade =>
    refine Nat.pos_of_ne_zero fun hnone ↦ ?_
    have hr : h.reads = 0 := hnone
    have hone : l.word = Int32.ofNat 2 := (upgrade_of_done hd).1
    rw [hw.word, Word.ofNat_inj (by omega) (by omega)] at hone
    omega
  | .downgrade =>
    have hone := hw.writes_eq_one (downgrade_of_done hd).1
    exact Nat.lt_of_lt_of_eq Nat.one_pos hone.symm

theorem releaseRead {l' : TicketLock} (hw : Wraps h n l) (hpos : 0 < h.reads)
    (he : l'.word = l.word - readerUnit) : Wraps (h.release .read) n l' where
  alone := hw.alone
  word := by
    rw [he, hw.word, ofNat_sub_readerUnit (by omega)]
    exact congrArg Int32.ofNat (by simp only [Holds.release]; omega)

theorem releaseWrite {l' : TicketLock} (hw : Wraps h n l) (hin : l.writerInside = true)
    (he : l'.word = l.word - writerBit) : Wraps (h.release .write) n l' where
  alone := Nat.le_trans (Nat.sub_le _ _) hw.alone
  word := by
    have hone := hw.writes_eq_one hin
    rw [he, hw.word, hone, Int32.sub_eq_add_neg, ofNat_succ_sub_writerBit]
    simp [Holds.release, hone]

theorem done (hw : Wraps h n l) {r : Request} (hp : n = 0 ∨ h.Permits r)
    (hd : (l.request r).result = .ok .done) :
    Wraps (h.met (.request (κ := κ) r)) n (l.request r).lock := by
  have hheld : h.Permits r := hp.elim (fun hnone ↦ permits (hnone ▸ hw) hd) id
  match r with
  | .tryLock .read => exact hw.takeRead (by rw [request, tryRead_of_done hd]; rfl)
  | .tryLock .write =>
    obtain ⟨hzero, hstep⟩ := tryWrite_of_done hd
    exact hw.takeWrite hzero (by rw [request, hstep]; rfl)
  | .unlock .read => exact hw.releaseRead hheld (unlockRead_of_done hd).2
  | .unlock .write =>
    exact hw.releaseWrite (writerInside_of_unlockWrite hd) (word_unlockWrite l)
  | .upgrade =>
    obtain ⟨hone, hstep⟩ := upgrade_of_done hd
    have hleft : Wraps (h.release .read) n { l with word := l.word - readerUnit } :=
      hw.releaseRead hheld rfl
    exact hleft.takeWrite (by simp [hone]) (by rw [request, hstep]; rfl)
  | .downgrade =>
    obtain ⟨hin, hword⟩ := downgrade_of_done hd
    have hleft : Wraps (h.release .write) n { l with word := l.word - writerBit } :=
      hw.releaseWrite hin rfl
    exact hleft.takeRead (by rw [request, hword]; simp only [Int32.sub_eq_add_neg]; grind)

end Wraps

end Requests

section Calls

variable {h : Holds} {n : Nat} {l : TicketLock} {m : Mode}

/-- A stretch of a blocking call for the lock, made while `n` claims of others stand. A call that
goes to sleep may leave a claim of its own. -/
structure Turns (m : Mode) (h : Holds) (n : Nat) (step : Step TicketLock Fault (Turn Wait)) :
    Prop where
  acquired : step.result = .ok .acquired → Wraps (h.take m) n step.lock
  asleep : ∀ {wait}, step.result = .ok (.asleep wait) → Wraps h (n + wait.claims) step.lock

namespace Turns

variable {step : Step TicketLock Fault (Turn Wait)}

theorem of_acquired (hr : step.result = .ok .acquired) (hw : Wraps (h.take m) n step.lock) :
    Turns m h n step where
  acquired _ := hw
  asleep hs := by cases hr.symm.trans hs

theorem of_asleep {wait : Wait} (hr : step.result = .ok (.asleep wait))
    (hw : Wraps h (n + wait.claims) step.lock) : Turns m h n step where
  acquired ha := by cases hr.symm.trans ha
  asleep hs := by
    cases hr.symm.trans hs
    exact hw

theorem of_error {f : Fault} (hr : step.result = .error f) : Turns m h n step where
  acquired ha := by cases hr.symm.trans ha
  asleep hs := by cases hr.symm.trans hs

theorem withSpins (ht : Turns m h n step) (spins : Int32) :
    Turns m h n { step with lock := RawLock.withSpins step.lock spins } where
  acquired ha := (ht.acquired ha).of_word_eq rfl
  asleep hs := (ht.asleep hs).of_word_eq rfl

theorem conclude (ht : Turns m h n step) (estimate spent : Int32) :
    Turns m h n (Contended.conclude estimate spent step) := by
  unfold Contended.conclude
  split
  · split
    · exact ht.withSpins _
    · exact of_error rfl
  · exact ht

end Turns

namespace Wraps

theorem sleepReader {wait : Wait} (hw : Wraps h (n + wait.claims) l) (note : String) :
    Turns m h n (l.sleepReader wait note) := by
  unfold TicketLock.sleepReader
  split
  · exact .of_asleep rfl (hw.of_word_eq rfl)
  · exact .of_error rfl

theorem awaitWriter (hw : Wraps h (n + 1) l) : Turns .read h n l.awaitWriter := by
  unfold TicketLock.awaitWriter
  split
  · exact sleepReader hw _
  · refine .of_acquired rfl ⟨hw.alone, hw.word.trans (congrArg Int32.ofNat ?_)⟩
    simp only [Holds.take]
    omega

theorem claimRead (hw : Wraps h n l) : Turns .read h n l.claimRead := by
  unfold TicketLock.claimRead
  dsimp only
  split
  · exact .of_error rfl
  · exact (hw.claim rfl).awaitWriter

theorem awaitDrain (hw : Wraps h n l) (ticket : Int32) :
    Turns .write h n (l.awaitDrain ticket) := by
  unfold TicketLock.awaitDrain
  split
  · next hzero => exact .of_acquired rfl (hw.takeWrite hzero rfl)
  · exact .of_asleep rfl hw

theorem awaitTurn (hw : Wraps h n l) (ticket : Int32) : Turns .write h n (l.awaitTurn ticket) := by
  unfold TicketLock.awaitTurn
  split
  · exact hw.awaitDrain ticket
  · exact .of_asleep rfl hw

theorem enter (hw : Wraps h n l) (m : Mode) : Turns m h n (l.enter m) := by
  cases m with
  | read =>
    simp only [TicketLock.enter]
    split
    · exact sleepReader hw _
    · exact hw.claimRead
  | write =>
    have hasked : Wraps h n { l with requests := l.requests + 1 } := hw.of_word_eq rfl
    exact hasked.awaitTurn l.requests

theorem wakeReader {next : TicketLock → Step TicketLock Fault (Turn Wait)}
    (hnext : ∀ readersWaiting, Turns m h n (next { l with readersWaiting })) :
    Turns m h n (l.wakeReader next) := by
  unfold TicketLock.wakeReader
  split
  · exact hnext _
  · exact .of_error rfl

theorem resume {wait : Wait} (hw : Wraps h (n + wait.claims) l) :
    Turns (Place.mode wait) h n (l.resume wait) := by
  cases wait with
  | behindWriters => exact wakeReader fun _ ↦ claimRead (hw.of_word_eq rfl)
  | writerInside => exact wakeReader fun _ ↦ awaitWriter (hw.of_word_eq rfl)
  | turn ticket => exact awaitTurn hw ticket
  | drain ticket => exact awaitDrain hw ticket

variable {s : Sleeper κ Wait} {ws : List (Sleeper κ Wait)}

theorem resumed (hw : Wraps h (n + s.wait.claims) l) :
    Turns s.mode h n (Contended.resume (F := Fault) s l) := hw.resume.conclude _ _

theorem resumeAll (hw : Wraps h (claims ws + n) l)
    (hg : (Contended.resumeAll (F := Fault) l ws).returned.all (·.granted) = true) :
    let run := Contended.resumeAll (F := Fault) l ws
    Wraps (Returned.welcome run.returned h) (claims run.asleep + n) run.lock := by
  induction ws generalizing h n l with
  | nil => exact hw
  | cons s later ih =>
    have hturn : Turns s.mode h (claims later + n) (Contended.resume (F := Fault) s l) := by
      refine resumed ?_
      rwa [Nat.add_comm, ← Nat.add_assoc, ← claims_cons]
    cases hresult : (Contended.resume (F := Fault) s l).result with
    | error f =>
      simp only [Contended.resumeAll, hresult, List.all_cons, Bool.and_eq_true] at hg
      cases hg.1
    | ok turn =>
      cases turn with
      | acquired =>
        rw [Contended.resumeAll_cons_acquired later hresult] at hg ⊢
        dsimp only at hg ⊢
        rw [Returned.welcome_granted_cons]
        exact ih (hturn.acquired hresult) (Bool.and_eq_true_iff.1 hg).2
      | asleep wait =>
        rw [Contended.resumeAll_cons_asleep later hresult] at hg ⊢
        have hnext : Wraps h (claims later + (n + wait.claims))
            (Contended.resume (F := Fault) s l).lock := by
          rw [← Nat.add_assoc]
          exact hturn.asleep hresult
        have hlast := ih hnext hg
        dsimp only at hlast ⊢
        rwa [claims_cons, Nat.add_comm wait.claims, Nat.add_assoc, Nat.add_comm wait.claims]

end Wraps

theorem tryLock_cases (m : Mode) (l : TicketLock) :
    l.request (.tryLock m) = .done .wouldBlock l ∨
      ∃ l', l.request (.tryLock m) = .done .done l' := by
  cases m with
  | read =>
    cases hw : l.writerInside with
    | true => exact .inl (tryRead_of_writerInside hw)
    | false =>
      simp only [request, tryRead, hw]
      split
      · exact .inl rfl
      · exact .inr ⟨_, rfl⟩
  | write =>
    simp only [request, tryWrite]
    split
    · exact .inr ⟨_, rfl⟩
    · exact .inl rfl

namespace Wraps

theorem call (hw : Wraps h n l) (m : Mode) : Turns m h n (Contended.enter (F := Fault) m l) := by
  obtain hrefused | ⟨l', hwon⟩ := tryLock_cases m l
  · rw [Contended.enter_of_refused hrefused]
    exact (hw.enter m).conclude _ _
  · rcases Nat.eq_zero_or_pos (Spin.tries (RawLock.spins l)) with hnone | hspins
    · rw [Contended.enter_of_no_tries hnone]
      exact (hw.enter m).conclude _ _
    · rw [Contended.enter_of_won hwon hspins]
      have htaken := hw.done (κ := Caller) (r := .tryLock m) (.inr trivial) (by rw [hwon]; rfl)
      rw [hwon] at htaken
      refine Turns.conclude (.of_acquired rfl ?_) _ _
      exact htaken

end Wraps

end Calls

def CountsReaders (h : Holds) (c : Contended TicketLock Wait κ) : Prop :=
  Wraps h (claims c.sleepers) c.lock

namespace CountsReaders

variable {h : Holds} {c : Contended TicketLock Wait κ}

theorem perm (hc : CountsReaders h c) {sleepers : List (Sleeper κ Wait)}
    (hp : sleepers.Perm c.sleepers) : CountsReaders h { c with sleepers } := by
  rw [CountsReaders, claims_perm hp]
  exact hc

theorem settle {α : Type} {n : Nat} {step : Step TicketLock Fault α}
    {sleepers : List (Sleeper κ Wait)} (hw : Wraps h (claims sleepers + n) step.lock)
    (hg : (Contended.settle step sleepers).returned.all (·.granted) = true) :
    let run := Contended.settle step sleepers
    Wraps (Returned.welcome run.returned h) (claims run.asleep + n) run.lock := by
  have hsplit := claims_perm (Contended.wake_perm sleepers step.signals)
  rw [← hsplit, claims_append, Nat.add_assoc] at hw
  have hlast := hw.resumeAll hg
  simp only [Contended.settle, claims_append]
  rwa [Nat.add_comm (claims _), Nat.add_assoc]

theorem request (hc : CountsReaders h c) {r : Request} (hp : claims c.sleepers = 0 ∨ h.Permits r)
    (hf : (c.request r).faultless = true) :
    CountsReaders ((c.request r).settle (.request r) h) (c.request r).after := by
  have hreply : (c.request r).reply = .ofAttempt (c.lock.request r).result := rfl
  cases hresult : (c.lock.request r).result with
  | error f =>
    have hfaulted := Outcome.unfaulted hf
    rw [hreply, hresult] at hfaulted
    cases hfaulted
  | ok a =>
    cases a with
    | wouldBlock =>
      rw [Contended.request_of_done (request_of_wouldBlock hresult)]
      exact hc
    | done =>
      have hdone : Wraps (h.met (.request (κ := κ) r)) (claims c.sleepers + 0)
          (c.lock.request r).lock := Wraps.done hc hp hresult
      rw [Outcome.settle, hreply, hresult]
      exact settle hdone (Bool.and_eq_true_iff.1 hf).2

theorem call (hc : CountsReaders h c) (caller : κ) (m : Mode)
    (hf : (c.call caller m).faultless = true) :
    CountsReaders ((c.call caller m).settle (.call caller m) h) (c.call caller m).after := by
  have hturn := Wraps.call hc m
  simp only [Contended.call] at hf ⊢
  generalize Contended.enter m c.lock = step at hturn hf ⊢
  have hg := (Bool.and_eq_true_iff.1 hf).2
  cases hresult : step.result with
  | error f =>
    have hfaulted := Outcome.unfaulted hf
    simp only [hresult] at hfaulted
    cases hfaulted
  | ok turn =>
    simp only [Outcome.settle, CountsReaders]
    cases turn with
    | acquired =>
      have htaken : Wraps (h.take m) (claims c.sleepers + 0) step.lock := hturn.acquired hresult
      simp only [List.append_nil]
      exact settle htaken hg
    | asleep wait =>
      simp only [claims_append, claims_cons, claims_nil]
      exact settle (hturn.asleep hresult) hg

theorem serve (hc : CountsReaders h c) {d : Demand κ}
    (hp : ∀ r, d = .request r → claims c.sleepers = 0 ∨ h.Permits r)
    (hf : (c.serve d).faultless = true) :
    CountsReaders ((c.serve d).settle d h) (c.serve d).after := by
  cases d with
  | call caller m => exact hc.call caller m hf
  | request r => exact hc.request (hp r rfl) hf

end CountsReaders

/-- A move in which nobody faults. Nor does anybody give back or convert a read that is not there,
which would go unnoticed where a sleeping reader has a claim. -/
structure Honest (s : Situation TicketLock Wait) (move : Situation.Move TicketLock Wait Fault)
    (_ : Situation TicketLock Wait) : Prop where
  faultless : move.report.faultless = true
  held : ∀ r, s.guarded.demand? move.op = some (.request r) →
    claims s.calls.sleepers = 0 ∨ s.holds.Permits r

variable {s t : Situation TicketLock Wait} {move : Situation.Move TicketLock Wait Fault}
  {moves : List (Situation.Move TicketLock Wait Fault)}

theorem CountsReaders.step (hc : CountsReaders s.holds s.calls) (hstep : Situation.Step s move t)
    (hhonest : Honest s move t) : CountsReaders t.holds t.calls := by
  obtain ⟨sleepers, hp, ⟨-, hcalls, hholds, -⟩ | ⟨d, out, hd, hout, hf, hcalls, hholds, -⟩⟩ :=
    hstep.serves hhonest.faultless
  · rw [hcalls, hholds]
    exact hc.perm hp
  · subst hout
    rw [hcalls, hholds]
    refine (hc.perm hp).serve (fun r hr ↦ ?_) hf
    rw [claims_perm hp]
    exact hhonest.held r (hr ▸ hd)

theorem CountsReaders.run (hrun : Situation.Run Honest s moves t)
    (hc : CountsReaders s.holds s.calls) : CountsReaders t.holds t.calls :=
  hrun.preserves (fun _ _ _ ↦ CountsReaders.step) hc

theorem countsReaders_fresh (q : Quotas) :
    CountsReaders {} (Situation.fresh (W := Wait) (TicketLock.ofQuotas q).1).calls :=
  ⟨Nat.zero_le 1, rfl⟩

end SyncKit.TicketLock
