import SyncKit.Proofs.Lock.Run
import SyncKit.Proofs.Spin

namespace SyncKit

def Sleeper.granted {κ W F : Type} [Place W] (s : Sleeper κ W) : Returned κ F :=
  ⟨s.caller, s.mode, .ok ()⟩

theorem Returned.welcome_granted_cons {κ W F : Type} [Place W] (s : Sleeper κ W)
    (later : List (Returned κ F)) (h : Holds) :
    welcome (s.granted :: later) h = welcome later (h.take s.mode) := by
  simp only [welcome, List.countP_cons, Sleeper.granted, Returned.granted, Except.isOk]
  cases s.mode <;> simp [Holds.take, Except.toBool] <;> omega

theorem Returned.length_of_conserved {κ W F : Type} [Place W] {returned : List (Returned κ F)}
    {asleep sleepers : List (Sleeper κ W)}
    (h : (returned ++ asleep.map Sleeper.granted).Perm (sleepers.map Sleeper.granted)) :
    returned.length + asleep.length = sleepers.length := by
  have hlen := h.length_eq
  rwa [List.length_append, List.length_map, List.length_map] at hlen

namespace Contended

variable {L W F κ : Type} [Place W] [RawLock L W F]

section Conclude

variable {step : Step L F (Turn W)} {estimate spent moved : Int32}

omit [Place W] in
theorem conclude_acquired (h : step.result = .ok .acquired)
    (hn : Spin.next estimate spent = .ok moved) :
    conclude estimate spent step = { step with lock := RawLock.withSpins step.lock moved } := by
  simp only [conclude, h, hn]

omit [Place W] in
theorem conclude_asleep {wait : W} (h : step.result = .ok (.asleep wait)) :
    conclude estimate spent step = step := by
  simp only [conclude, h]

end Conclude

omit [RawLock L W F] in
theorem countP_mode_cons (s : Sleeper κ W) (sleepers : List (Sleeper κ W)) (m : Mode) :
    (s :: sleepers).countP (·.mode == m) =
      sleepers.countP (·.mode == m) + if s.mode = m then 1 else 0 := by
  rw [List.countP_cons]
  simp only [beq_iff_eq]

section Wake

theorem split_perm (sleepers : List (Sleeper κ W)) (signal : Signal) :
    ((signal.split sleepers).1 ++ (signal.split sleepers).2).Perm sleepers := by
  cases signal with
  | all m =>
    simp only [Signal.split, List.partition_eq_filter_filter]
    exact List.filter_append_perm _ _
  | one m =>
    simp only [Signal.split]
    obtain hnone | ⟨s, before, later, hbefore, hs, hsplit, herase⟩ :=
      List.exists_or_eq_self_of_eraseP (·.mode == m) sleepers
    · have hfilter : sleepers.filter (·.mode == m) = [] := by
        rw [List.filter_eq_nil_iff]
        exact List.eraseP_eq_self_iff.1 hnone
      rw [hfilter, hnone]
      exact .refl _
    · have hfilter : before.filter (·.mode == m) = [] := List.filter_eq_nil_iff.2 hbefore
      have hfirst : (s :: later).filter (·.mode == m) = s :: later.filter (·.mode == m) :=
        List.filter_cons_of_pos hs
      rw [herase, hsplit, List.filter_append, hfilter, hfirst]
      change (s :: (before ++ later)).Perm (before ++ s :: later)
      exact List.perm_middle.symm

/-- A signal moves sleepers and loses none. -/
theorem wake_perm (sleepers : List (Sleeper κ W)) (signals : List Signal) :
    ((wake sleepers signals).1 ++ (wake sleepers signals).2).Perm sleepers := by
  induction signals generalizing sleepers with
  | nil => exact .refl _
  | cons signal later ih =>
    simp only [wake, List.append_assoc]
    exact ((ih _).append_left _).trans (split_perm sleepers signal)

theorem wake_singleton (sleepers : List (Sleeper κ W)) (signal : Signal) :
    wake sleepers [signal] = signal.split sleepers := by
  simp only [wake, List.append_nil]

theorem wake_nil (signals : List Signal) : wake ([] : List (Sleeper κ W)) signals = ([], []) := by
  induction signals with
  | nil => rfl
  | cons signal later ih =>
    have hsplit : signal.split ([] : List (Sleeper κ W)) = ([], []) := by cases signal <;> rfl
    simp only [wake, hsplit, ih, List.append_nil]

theorem length_split_one (sleepers : List (Sleeper κ W)) (m : Mode) :
    ((Signal.one m).split sleepers).1.length = min 1 (sleepers.countP (·.mode == m)) := by
  rw [Signal.split, List.length_take, List.countP_eq_length_filter]

theorem length_split_all (sleepers : List (Sleeper κ W)) (m : Mode) :
    ((Signal.all m).split sleepers).1.length = sleepers.countP (·.mode == m) := by
  rw [Signal.split, List.partition_eq_filter_filter, List.countP_eq_length_filter]

end Wake

@[simp] theorem resumeAll_nil (l : L) :
    resumeAll (F := F) l ([] : List (Sleeper κ W)) = { lock := l } := rfl

theorem resumeAll_append (l : L) (xs ys : List (Sleeper κ W)) :
    resumeAll (F := F) l (xs ++ ys) =
      let first := resumeAll (F := F) l xs
      let second := resumeAll (F := F) first.lock ys
      ⟨second.lock, first.returned ++ second.returned, first.asleep ++ second.asleep,
        first.notes ++ second.notes⟩ := by
  induction xs generalizing l with
  | nil => rfl
  | cons x xs ih =>
    simp only [List.cons_append, resumeAll, ih]
    split <;> simp only [List.cons_append, List.append_assoc]

theorem resumeAll_cons_acquired {l : L} {s : Sleeper κ W} (later : List (Sleeper κ W))
    (h : (resume (F := F) s l).result = .ok .acquired) :
    resumeAll (F := F) l (s :: later) =
      let rest := resumeAll (F := F) (resume (F := F) s l).lock later
      { rest with
        returned := s.granted :: rest.returned
        notes := (resume (F := F) s l).notes ++ rest.notes } := by
  simp only [resumeAll, h]
  rfl

theorem resumeAll_cons_asleep {l : L} {s : Sleeper κ W} (later : List (Sleeper κ W)) {wait : W}
    (h : (resume (F := F) s l).result = .ok (.asleep wait)) :
    resumeAll (F := F) l (s :: later) =
      let rest := resumeAll (F := F) (resume (F := F) s l).lock later
      { rest with
        asleep := { s with wait } :: rest.asleep
        notes := (resume (F := F) s l).notes ++ rest.notes } := by
  simp only [resumeAll, h]

theorem length_returned_le (l : L) (ws : List (Sleeper κ W)) :
    (resumeAll (F := F) l ws).returned.length ≤ ws.length := by
  induction ws generalizing l with
  | nil => exact Nat.le_refl 0
  | cons s later ih =>
    have hrest := ih (resume (F := F) s l).lock
    simp only [resumeAll]
    split <;> simp only [List.length_cons] <;> omega

section Settle

variable {α : Type} {step : Step L F α}

theorem settle_of_silent (h : step.signals = []) (sleepers : List (Sleeper κ W)) :
    settle step sleepers = { lock := step.lock, asleep := sleepers, notes := step.notes } := by
  simp only [settle, h, wake, resumeAll_nil, List.append_nil]

theorem settle_of_all {m : Mode} (h : step.signals = [.all m]) (sleepers : List (Sleeper κ W)) :
    settle step sleepers =
      let run := resumeAll (F := F) step.lock (sleepers.filter (·.mode == m))
      { run with
        asleep := sleepers.filter (·.mode != m) ++ run.asleep
        notes := step.notes ++ run.notes } := by
  simp only [settle, h, wake, Signal.split, List.partition_eq_filter_filter, List.append_nil]
  rfl

end Settle

section Enter

variable {m : Mode} {l : L}

omit [Place W] in
theorem spinOnce_of_refused
    (h : RawLock.request (.tryLock m) l = Step.done (F := F) .wouldBlock l) :
    spinOnce (F := F) m (l, []) = (.ok false, l, []) := by
  simp only [spinOnce, h]
  rfl

omit [Place W] in
theorem spinOnce_of_won {l' : L}
    (h : RawLock.request (.tryLock m) l = Step.done (F := F) .done l') :
    spinOnce (F := F) m (l, []) = (.ok true, l', []) := by
  simp only [spinOnce, h]
  rfl

omit [Place W] in
/-- A call that cannot get the lock at once leaves it alone while it spins. -/
theorem enter_of_refused (h : RawLock.request (.tryLock m) l = Step.done (F := F) .wouldBlock l) :
    enter m l = conclude (RawLock.spins l) (Spin.spent (RawLock.spins l) none)
      (RawLock.enter (F := F) m l) := by
  unfold enter
  dsimp only
  rw [Spin.phase_of_refused (spinOnce_of_refused h)]
  rfl

omit [Place W] in
theorem enter_of_won {l' : L} (h : RawLock.request (.tryLock m) l = Step.done (F := F) .done l')
    (hn : 0 < Spin.tries (RawLock.spins l)) :
    enter m l = conclude (RawLock.spins l) (Spin.spent (RawLock.spins l) (some 1))
      (Step.done (F := F) .acquired l') := by
  unfold enter
  dsimp only
  rw [Spin.phase_of_won (spinOnce_of_won h) hn]
  rfl

omit [Place W] in
theorem enter_of_no_tries (hn : Spin.tries (RawLock.spins l) = 0) :
    enter m l = conclude (RawLock.spins l) (Spin.spent (RawLock.spins l) none)
      (RawLock.enter (F := F) m l) := by
  unfold enter
  dsimp only
  rw [hn]
  rfl

omit [Place W] in
theorem enter_of_faulted {f : F}
    (htry : (RawLock.request (F := F) (.tryLock m) l).result = .error f)
    (hn : 0 < Spin.tries (RawLock.spins l)) :
    enter m l =
      { result := .error f
        lock := (RawLock.request (F := F) (.tryLock m) l).lock
        signals := (RawLock.request (F := F) (.tryLock m) l).signals } := by
  have hspin : spinOnce (F := F) m (l, []) = (.error f,
      (RawLock.request (F := F) (.tryLock m) l).lock,
      (RawLock.request (F := F) (.tryLock m) l).signals) := by
    simp only [spinOnce, htry]
    rfl
  unfold enter
  dsimp only
  rw [Spin.phase_of_faulted hspin hn]

end Enter

section Request

variable {c : Contended L W κ} {r : Request} {l : L}

theorem request_of_silent (h : (RawLock.request (F := F) r c.lock).signals = []) :
    c.request (F := F) r =
      { reply := .ofAttempt (RawLock.request r c.lock).result
        notes := (RawLock.request (F := F) r c.lock).notes
        after := ⟨(RawLock.request (F := F) r c.lock).lock, c.sleepers⟩ } := by
  simp only [request, settle_of_silent h]

theorem request_of_done {a : Attempt}
    (h : RawLock.request r c.lock = Step.done (F := F) a l) :
    c.request r = { reply := .ofAttempt (.ok a), after := ⟨l, c.sleepers⟩ } := by
  simp only [request, h, Step.done, settle_of_silent]

theorem request_of_alone (h : c.sleepers = []) (r : Request) :
    c.request (F := F) r =
      { reply := .ofAttempt (RawLock.request r c.lock).result
        notes := (RawLock.request (F := F) r c.lock).notes
        after := ⟨(RawLock.request (F := F) r c.lock).lock, []⟩ } := by
  simp only [request, h, settle, wake_nil, resumeAll_nil, List.append_nil]

theorem request_of_fault {f : F} (h : RawLock.request r c.lock = Step.fault (F := F) f l) :
    c.request r = { reply := .fault f, after := ⟨l, c.sleepers⟩ } := by
  simp only [request, h, Step.fault, settle_of_silent]
  rfl

end Request

section Call

variable {c : Contended L W κ} {m : Mode} {l : L}

theorem call_of_acquired (caller : κ) (h : enter m c.lock = Step.done (F := F) .acquired l) :
    c.call caller m = { reply := .done, after := ⟨l, c.sleepers⟩ } := by
  simp only [call, h, Step.done, settle_of_silent, List.append_nil]
  rfl

theorem call_of_asleep (caller : κ) {wait : W} {notes : List Note}
    (h : enter (F := F) m c.lock = { result := .ok (.asleep wait), lock := l, notes }) :
    c.call caller m =
      { reply := .asleep, notes,
        after := ⟨l, c.sleepers ++ [⟨caller, wait, RawLock.spins c.lock⟩]⟩ } := by
  simp only [call, h, settle_of_silent]
  rfl

theorem call_of_won (caller : κ) (hs : Spin.Settled (RawLock.spins c.lock))
    (htry : RawLock.request (.tryLock m) c.lock = Step.done (F := F) .done l) :
    ∃ spins, Spin.Settled spins ∧
      c.call caller m =
        { reply := .done, after := ⟨RawLock.withSpins l spins, c.sleepers⟩ } := by
  have henter := enter_of_won htry (Spin.tries_pos hs)
  obtain ⟨moved, hmoved, hsettled⟩ := Spin.next_settled
    (e := RawLock.spins c.lock) (s := Spin.spent (RawLock.spins c.lock) (some 1)) hs
    ⟨Int.le_refl 1, by rw [Spin.spent_one]; decide⟩
  rw [conclude_acquired rfl hmoved] at henter
  exact ⟨moved, hsettled, call_of_acquired caller henter⟩

theorem call_of_refused (caller : κ) {wait : W} {notes : List Note}
    (htry : RawLock.request (.tryLock m) c.lock = Step.done (F := F) .wouldBlock c.lock)
    (henter : RawLock.enter (F := F) m c.lock =
      { result := .ok (.asleep wait), lock := l, notes }) :
    c.call caller m =
      { reply := .asleep, notes,
        after := ⟨l, c.sleepers ++ [⟨caller, wait, RawLock.spins c.lock⟩]⟩ } := by
  have hstep := enter_of_refused htry
  rw [henter, conclude_asleep rfl] at hstep
  exact call_of_asleep caller hstep

theorem call_of_fault (caller : κ) {f : F} (hs : Spin.Settled (RawLock.spins c.lock))
    (htry : RawLock.request (.tryLock m) c.lock = Step.fault (F := F) f l) :
    c.call caller m = { reply := .fault f, after := ⟨l, c.sleepers⟩ } := by
  have henter : enter m c.lock = Step.fault (F := F) f l := by
    rw [enter_of_faulted (m := m) (congrArg Step.result htry) (Spin.tries_pos hs), htry]
    rfl
  simp only [call, henter, Step.fault, settle_of_silent, List.append_nil]
  rfl

end Call

end Contended

end SyncKit
