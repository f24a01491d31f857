import SyncKit.Proofs.Lock.Admission
import SyncKit.Proofs.Quota.Bidding

namespace SyncKit.QuotaLock

variable {κ : Type} {h : Holds}

/-- What became of the sleepers once some of them were woken: each came back with the lock, and was
counted, or sleeps on. -/
structure Handover (h : Holds) (before : Nat) (sleepers : List (Sleeper κ Mode))
    (returned : List (Returned κ Fault)) (after : Contended QuotaLock Mode κ) : Prop where
  tallied : Tallied (Returned.welcome returned h) after
  counted : after.lock.granted.toNat = before + returned.length
  granted : returned.all (·.granted) = true
  conserved : (returned ++ after.sleepers.map Sleeper.granted).Perm (sleepers.map Sleeper.granted)

namespace Handover

variable {before : Nat} {sleepers : List (Sleeper κ Mode)} {returned : List (Returned κ Fault)}
  {after : Contended QuotaLock Mode κ}

theorem nobody {c : Contended QuotaLock Mode κ} (ht : Tallied h c) :
    Handover h c.lock.granted.toNat c.sleepers [] c :=
  ⟨ht, rfl, rfl, .refl _⟩

theorem perm (ho : Handover h before sleepers returned after)
    {sleepers' asleep' : List (Sleeper κ Mode)} (hp : sleepers.Perm sleepers')
    (hp' : asleep'.Perm after.sleepers) :
    Handover h before sleepers' returned ⟨after.lock, asleep'⟩ where
  tallied := ho.tallied.perm hp'
  counted := ho.counted
  granted := ho.granted
  conserved := ((hp'.map _).append_left _).trans (ho.conserved.trans (hp.map _))

theorem returned_pos (ho : Handover h before sleepers returned after)
    (hidle : returned = [] → after.sleepers = []) (hsome : sleepers ≠ []) :
    0 < returned.length := by
  apply Nat.pos_of_ne_zero
  intro hzero
  have hlen := Returned.length_of_conserved ho.conserved
  rw [hzero, hidle (List.eq_nil_of_length_eq_zero hzero)] at hlen
  exact hsome (List.eq_nil_of_length_eq_zero hlen.symm)

theorem returned_eq_one (ho : Handover h before sleepers returned after)
    (hmode : after.lock.mode = some .write) (hpos : 0 < returned.length) :
    returned.length = 1 := by
  have halone := ho.tallied.total_le_one hmode
  rw [Returned.total_welcome ho.granted] at halone
  omega

theorem cons {s : Sleeper κ Mode}
    (ho : Handover (h.take s.mode) (before + 1) sleepers returned after) :
    Handover h before (s :: sleepers) (s.granted :: returned) after where
  tallied := by
    rw [Returned.welcome_granted_cons]
    exact ho.tallied
  counted := by
    rw [List.length_cons]
    have := ho.counted
    omega
  granted := ho.granted
  conserved := ho.conserved.cons _

end Handover

section Resume

variable {l : QuotaLock} {s : Sleeper κ Mode}

/-- Woken calls run one after the other in front of a lock: each sleeps again, comes in, or comes
back with a fault because its grant cannot be counted. -/
inductive Resumes : Holds → QuotaLock → List (Sleeper κ Mode) → List (Sleeper κ Mode) →
    Aftermath QuotaLock Mode Fault κ → Prop
  | nil {h : Holds} {l : QuotaLock} {others : List (Sleeper κ Mode)}
      (tallied : Tallied h ⟨l, others⟩) : Resumes h l [] others { lock := l }
  | asleep {h : Holds} {l : QuotaLock} {s : Sleeper κ Mode} {later others : List (Sleeper κ Mode)}
      {run : Aftermath QuotaLock Mode Fault κ} {notes : List Note}
      (refused : l.admits s.mode = false) (rest : Resumes h l later (s :: others) run) :
      Resumes h l (s :: later) others { run with asleep := s :: run.asleep, notes }
  | acquired {h : Holds} {l l' : QuotaLock} {s : Sleeper κ Mode}
      {later others : List (Sleeper κ Mode)} {run : Aftermath QuotaLock Mode Fault κ}
      {notes : List Note} (admitted : l.admits s.mode = true) (letsIn : LetsIn s.mode 1 l l')
      (rest : Resumes (h.take s.mode) l' later others run) :
      Resumes h l (s :: later) others
        { run with returned := s.granted :: run.returned, notes }
  | full {h : Holds} {l : QuotaLock} {s : Sleeper κ Mode} {later others : List (Sleeper κ Mode)}
      {run : Aftermath QuotaLock Mode Fault κ} {notes : List Note} (f : Fault)
      (admitted : l.admits s.mode = true) (room : ¬ l.granted.toNat + 1 < 2 ^ 32) :
      Resumes h l (s :: later) others
        { run with returned := ⟨s.caller, s.mode, .error f⟩ :: run.returned, notes }

theorem resumes_resumeAll (ws others : List (Sleeper κ Mode)) (ht : Tallied h ⟨l, ws ++ others⟩) :
    Resumes h l ws others (Contended.resumeAll l ws) := by
  induction ws generalizing l h others with
  | nil => exact .nil ht
  | cons s later ih =>
    cases ha : l.admits s.mode with
    | false =>
      obtain ⟨notes, hr⟩ := resume_of_refused ht ha
      rw [Contended.resumeAll_cons_asleep later (by rw [hr]), hr]
      -- The call that sleeps again is one of the others to the calls woken after it.
      exact .asleep ha (ih (s :: others) (ht.perm List.perm_middle))
    | true =>
      by_cases hroom : l.granted.toNat + 1 < 2 ^ 32
      · obtain ⟨l', hr, hin, ht'⟩ := resume_of_admits ht ha hroom
        rw [Contended.resumeAll_cons_acquired later (by rw [hr]; rfl), hr]
        exact .acquired ha hin (ih others ht')
      · obtain ⟨f, hf⟩ := resume_faults ht ha hroom
        simp only [Contended.resumeAll, hf]
        exact .full f ha hroom

namespace Resumes

variable {ws others : List (Sleeper κ Mode)} {run : Aftermath QuotaLock Mode Fault κ}

theorem handover (hr : Resumes h l ws others run)
    (hfit : l.granted.toNat + run.returned.length < 2 ^ 32) :
    Handover h l.granted.toNat (ws ++ others) run.returned ⟨run.lock, others ++ run.asleep⟩ := by
  induction hr with
  | nil ht =>
    rw [List.append_nil]
    exact .nobody ht
  | asleep _ _ ih => exact (ih hfit).perm List.perm_middle List.perm_middle
  | acquired _ hin _ ih =>
    have hcount := hin.granted
    have hrest := ih (by rw [hcount]; exact Nat.add_right_comm _ _ _ ▸ hfit)
    rw [hcount] at hrest
    exact hrest.cons
  | full f _ hroom =>
    rw [List.length_cons] at hfit
    omega

theorem letsIn {m : Mode} (hr : Resumes h l ws others run) (hmode : ∀ s ∈ ws, s.mode = m)
    (hfit : l.granted.toNat + run.returned.length < 2 ^ 32) :
    LetsIn m run.returned.length l run.lock ∧
      Returned.modes run.returned = List.replicate run.returned.length m := by
  induction hr with
  | nil => exact ⟨.nobody m _, rfl⟩
  | asleep _ _ ih => exact ih (fun t hmem ↦ hmode t (List.mem_cons_of_mem _ hmem)) hfit
  | @acquired _ _ _ s later _ _ _ _ hin _ ih =>
    have hs := hmode s List.mem_cons_self
    have hcount := hin.granted
    rw [List.length_cons] at hfit ⊢
    obtain ⟨hrest, hmodes⟩ := ih (fun t hmem ↦ hmode t (List.mem_cons_of_mem s hmem)) (by omega)
    rw [hs] at hin
    refine ⟨Nat.add_comm 1 _ ▸ hin.trans hrest, ?_⟩
    rw [List.replicate_succ, ← hmodes, ← hs]
    rfl
  | full f _ hroom =>
    rw [List.length_cons] at hfit
    omega

end Resumes

theorem returned_ne_nil {ws others : List (Sleeper κ Mode)} (ht : Tallied h ⟨l, ws ++ others⟩)
    (hfree : h.total = 0) (hws : ws ≠ []) :
    (Contended.resumeAll (F := Fault) l ws).returned ≠ [] := by
  cases ws with
  | nil => exact absurd rfl hws
  | cons s later =>
    have ha := ht.admits_of_free hfree s.mode
    by_cases hroom : l.granted.toNat + 1 < 2 ^ 32
    · obtain ⟨l', hr, -, -⟩ := resume_of_admits ht ha hroom
      rw [Contended.resumeAll_cons_acquired later (by rw [hr]; rfl)]
      exact List.cons_ne_nil _ _
    · obtain ⟨f, hf⟩ := resume_faults ht ha hroom
      simp only [Contended.resumeAll, hf]
      exact List.cons_ne_nil _ _

end Resume

section Settle

variable {α : Type} {step : Step QuotaLock Fault α} {sleepers : List (Sleeper κ Mode)}

theorem handover_settle (step : Step QuotaLock Fault α) (ht : Tallied h ⟨step.lock, sleepers⟩)
    (hfit : step.lock.granted.toNat + (Contended.settle step sleepers).returned.length < 2 ^ 32) :
    let run := Contended.settle step sleepers
    Handover h step.lock.granted.toNat sleepers run.returned ⟨run.lock, run.asleep⟩ := by
  have hp := Contended.wake_perm sleepers step.signals
  exact ((resumes_resumeAll _ _ (ht.perm hp)).handover hfit).perm hp (.refl _)

theorem letsIn_settle {signal : Signal} {m : Mode} (hm : signal = .one m ∨ signal = .all m)
    (ht : Tallied h ⟨step.lock, sleepers⟩) (hs : step.signals = [signal])
    (hfit : step.lock.granted.toNat + (Contended.settle step sleepers).returned.length < 2 ^ 32) :
    let run := Contended.settle step sleepers
    LetsIn m run.returned.length step.lock run.lock ∧
      Returned.modes run.returned = List.replicate run.returned.length m := by
  have hp := Contended.wake_perm sleepers [signal]
  have hmode : ∀ s ∈ (Contended.wake sleepers [signal]).1, s.mode = m := by
    rw [Contended.wake_singleton]
    intro s hmem
    rcases hm with rfl | rfl
    · exact beq_iff_eq.1 (List.mem_filter.1 (List.mem_of_mem_take hmem)).2
    · rw [Signal.split, List.partition_eq_filter_filter] at hmem
      exact beq_iff_eq.1 (List.mem_filter.1 hmem).2
  simp only [Contended.settle, hs] at hfit ⊢
  exact (resumes_resumeAll _ _ (ht.perm hp)).letsIn hmode hfit

theorem handover_silent (ht : Tallied h ⟨step.lock, sleepers⟩) (hs : step.signals = []) :
    let run := Contended.settle step sleepers
    Handover h step.lock.granted.toNat sleepers run.returned ⟨run.lock, run.asleep⟩ := by
  simp only [Contended.settle_of_silent hs]
  exact .nobody ht

theorem handover_woken {signal : Signal} (ht : Tallied h ⟨step.lock, sleepers⟩)
    (hs : step.signals = [signal]) (hfree : h.total = 0)
    (hpos : 0 < (signal.split sleepers).1.length)
    (hfit : step.lock.granted.toNat + (signal.split sleepers).1.length < 2 ^ 32) :
    let run := Contended.settle step sleepers
    Handover h step.lock.granted.toNat sleepers run.returned ⟨run.lock, run.asleep⟩ ∧
      run.returned ≠ [] := by
  have hp := Contended.wake_perm sleepers [signal]
  have hreturned : (Contended.settle step sleepers).returned =
      (Contended.resumeAll (F := Fault) step.lock (signal.split sleepers).1).returned := by
    simp only [Contended.settle, hs, Contended.wake_singleton]
  rw [Contended.wake_singleton] at hp
  refine ⟨handover_settle step ht ?_, ?_⟩
  · have hle := Contended.length_returned_le (F := Fault) step.lock (signal.split sleepers).1
    rw [hreturned]
    omega
  · rw [hreturned]
    exact returned_ne_nil (ht.perm hp) hfree (List.length_pos_iff.1 hpos)

end Settle

end SyncKit.QuotaLock
