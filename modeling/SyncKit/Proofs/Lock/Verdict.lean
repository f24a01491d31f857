import SyncKit.Proofs.Lock.Grants
import SyncKit.Proofs.Lock.Waking

namespace SyncKit

def Holds.attempt (h : Holds) : Request → Option Attempt
  | .tryLock .read => some (if h.writes = 0 then .done else .wouldBlock)
  | .tryLock .write => some (if h.total = 0 then .done else .wouldBlock)
  | .unlock m => if 0 < h.of m then some .done else none
  | .upgrade => if h.reads = 0 then none else some (if h.reads = 1 then .done else .wouldBlock)
  | .downgrade => if 0 < h.writes then some .done else none

theorem Holds.attempt_eq_none {h : Holds} {r : Request} (hn : ¬ h.Permits r) :
    h.attempt r = none := by
  cases r with
  | tryLock m => exact absurd trivial hn
  | unlock m => exact if_neg hn
  | upgrade => exact if_pos (Nat.eq_zero_of_not_pos hn)
  | downgrade => exact if_neg hn

def Holds.attempted (r : Request) (h : Holds) : Attempt → Holds
  | .done => h.met (.request (κ := Caller) r)
  | .wouldBlock => h

theorem Holds.reads_attempted_le (h : Holds) (r : Request) (a : Attempt) :
    (h.attempted r a).reads ≤ h.reads + 1 := by
  cases a with
  | wouldBlock => exact Nat.le_succ _
  | done => exact h.reads_met_le (.request r)

/-- Two logs of the same operations on two locks, which answer alike until both fault. After every
answer that is not a fault, the locks are related if they are still there. -/
inductive InStep {L W F L' W' F' : Type} (R : L → L' → Prop) :
    List (Guarded.Report F (Option (Guarded L W))) →
      List (Guarded.Report F' (Option (Guarded L' W'))) → Prop
  | nil : InStep R [] []
  | faulted {r : Guarded.Report F (Option (Guarded L W))}
      {r' : Guarded.Report F' (Option (Guarded L' W'))} {later later'} {f : F} {f' : F'} :
      r.answer = .reply (.fault f) → r'.answer = .reply (.fault f') →
      InStep R (r :: later) (r' :: later')
  | served {r : Guarded.Report F (Option (Guarded L W))}
      {r' : Guarded.Report F' (Option (Guarded L' W'))} {later later'} :
      r.answer = .reply .done ∧ r'.answer = .reply .done ∨
        r.answer = .reply .wouldBlock ∧ r'.answer = .reply .wouldBlock →
      Option.Rel (fun g g' ↦ R g.calls.lock g'.calls.lock) r.after r'.after →
      InStep R later later' → InStep R (r :: later) (r' :: later')

theorem result_of_attempt {F : Type} {result : Except F Attempt} {a : Attempt}
    (h : result.toOption = some a) : result = .ok a := by
  cases result with
  | ok b => exact congrArg _ (Option.some.inj h)
  | error f => cases h

theorem fault_of_misuse {F : Type} {result : Except F Attempt} (h : result.toOption = none) :
    ∃ f, result = .error f := by
  cases result with
  | ok a => cases h
  | error f => exact ⟨f, rfl⟩

theorem toOption_of_done {F : Type} {result : Except F Attempt}
    (h : Reply.ofAttempt result = .done) : result.toOption = some .done := by
  cases result with
  | ok a => cases a <;> first | rfl | cases h
  | error f => cases h

theorem toOption_of_fault {F : Type} {result : Except F Attempt} {f : F}
    (h : Reply.ofAttempt result = .fault f) : result.toOption = none := by
  cases result with
  | ok a => cases a <;> cases h
  | error f => rfl

section Decides

variable {L W F : Type} [Place W] [RawLock L W F]

/-- A lock that lets the holds alone decide, when nobody sleeps in it and after `n` requests. -/
structure Decides (I : Nat → Holds → L → Prop) : Prop where
  result : ∀ {n : Nat} {h : Holds} {l : L} (r : Request), I n h l → n + 1 < 2 ^ 30 →
    (RawLock.request (F := F) r l).result.toOption = h.attempt r
  kept : ∀ {n : Nat} {h : Holds} {l : L} {r : Request} {a : Attempt}, I n h l → n + 1 < 2 ^ 30 →
    h.attempt r = some a → I (n + 1) (h.attempted r a) (RawLock.request (F := F) r l).lock
  destroy : ∀ {n : Nat} {h : Holds} {l : L}, I n h l →
    (RawLock.destroy (F := F) l = .ok () ↔ h.total = 0)

theorem Guarded.perform_request_of_alone {g : Guarded L W} (h : g.calls.sleepers = [])
    (r : Request) :
    ∃ g' : Guarded L W,
      (g.perform (F := F) (.request r)).answer =
        .reply (.ofAttempt (RawLock.request r g.calls.lock).result) ∧
      (g.perform (F := F) (.request r)).after = some g' ∧
      g'.calls.lock = (RawLock.request (F := F) r g.calls.lock).lock ∧ g'.calls.sleepers = [] := by
  have hrequest := Contended.request_of_alone (F := F) h r
  exact ⟨(g.request (F := F) r).after, congrArg (Answer.reply ∘ Outcome.reply) hrequest, rfl,
    congrArg (·.after.lock) hrequest, congrArg (·.after.sleepers) hrequest⟩

theorem Contended.serve_of_attempt {c : Contended L W Caller} (hc : c.sleepers = []) {r : Request}
    {a : Attempt} (ha : (RawLock.request (F := F) r c.lock).result = .ok a) (h : Holds) :
    let out := c.serve (F := F) (.request r)
    out.faultless = true ∧ out.returned = [] ∧ out.settle (.request r) h = h.attempted r a ∧
      out.after = ⟨(RawLock.request (F := F) r c.lock).lock, []⟩ := by
  have hserve : c.serve (.request r) = _ := request_of_alone (F := F) hc r
  rw [hserve, ha]
  cases a <;> exact ⟨rfl, rfl, rfl, rfl⟩

end Decides

section Agreement

variable {L W F L' W' F' : Type} [Place W] [RawLock L W F] [Place W'] [RawLock L' W' F']
  {R : L → L' → Prop}

theorem InStep.destroy {g : Guarded L W} {g' : Guarded L' W'}
    (h : RawLock.destroy (F := F) g.calls.lock = .ok () ↔
      RawLock.destroy (F := F') g'.calls.lock = .ok ()) :
    InStep R (Guarded.run (F := F) [.destroy] (some g))
      (Guarded.run (F := F') [.destroy] (some g')) := by
  cases hd : RawLock.destroy (F := F) g.calls.lock with
  | ok =>
    have hd' := h.1 hd
    refine .served (.inl ⟨Guarded.answer_destroy_of_ok hd, Guarded.answer_destroy_of_ok hd'⟩) ?_
      .nil
    simp only [Guarded.step, Guarded.perform, Guarded.destroy, hd, hd']
    exact .none
  | error f =>
    cases hd' : RawLock.destroy (F := F') g'.calls.lock with
    | ok => cases hd.symm.trans (h.2 hd')
    | error f' =>
      exact .faulted (Guarded.answer_destroy_of_error hd) (Guarded.answer_destroy_of_error hd')

/-- Two locks that let the same holds decide answer in step. -/
theorem Decides.inStep {I : Nat → Holds → L → Prop} {I' : Nat → Holds → L' → Prop}
    (hd : Decides (F := F) I) (hd' : Decides (F := F') I')
    (hR : ∀ {n n' : Nat} {h : Holds} {l : L} {l' : L'}, I n h l → I' n' h l' → R l l')
    (requests : List Request) {ending : List Guarded.Operation}
    (hend : ending = [] ∨ ending = [.destroy]) {n : Nat} {h : Holds} {g : Guarded L W}
    {g' : Guarded L' W'} (hg : g.calls.sleepers = []) (hg' : g'.calls.sleepers = [])
    (hI : I n h g.calls.lock) (hI' : I' n h g'.calls.lock)
    (hfew : n + requests.length < 2 ^ 30) :
    InStep R (Guarded.run (F := F) (requests.map .request ++ ending) (some g))
      (Guarded.run (F := F') (requests.map .request ++ ending) (some g')) := by
  induction requests generalizing n h g g' with
  | nil =>
    obtain rfl | rfl := hend
    · exact .nil
    · exact .destroy ((hd.destroy hI).trans (hd'.destroy hI').symm)
  | cons r later ih =>
    rw [List.length_cons] at hfew
    obtain ⟨t, hanswer, hafter, hlock, ht⟩ := Guarded.perform_request_of_alone (F := F) hg r
    obtain ⟨t', hanswer', hafter', hlock', ht'⟩ := Guarded.perform_request_of_alone (F := F') hg' r
    have hresult := hd.result r hI (by omega)
    have hresult' := hd'.result r hI' (by omega)
    cases ha : h.attempt r with
    | none =>
      rw [ha] at hresult hresult'
      obtain ⟨f, hf⟩ := fault_of_misuse hresult
      obtain ⟨f', hf'⟩ := fault_of_misuse hresult'
      rw [hf] at hanswer
      rw [hf'] at hanswer'
      exact .faulted hanswer hanswer'
    | some a =>
      rw [ha] at hresult hresult'
      rw [result_of_attempt hresult] at hanswer
      rw [result_of_attempt hresult'] at hanswer'
      have hkept := hd.kept hI (by omega) ha
      have hkept' := hd'.kept hI' (by omega) ha
      rw [← hlock] at hkept
      rw [← hlock'] at hkept'
      have hlater := ih ht ht' hkept hkept' (by omega)
      rw [← hafter, ← hafter'] at hlater
      refine .served ?_ ?_ hlater
      · cases a with
        | done => exact .inl ⟨hanswer, hanswer'⟩
        | wouldBlock => exact .inr ⟨hanswer, hanswer'⟩
      · rw [Guarded.step, Guarded.step, hafter, hafter']
        exact .some (hR hkept hkept')

end Agreement

end SyncKit
