import Mathlib.Algebra.BigOperators.Group.Finset.Piecewise
import Mathlib.Algebra.BigOperators.Fin
import SyncKit.Proofs.Shares.Count

namespace SyncKit.ShareCount

def Operation.entitled : Operation → Nat → Option Nat
  | .increment, held + 1 => some (held + 2)
  | .decrement, held + 1 => some held
  | .release, held + 1 => some held
  | _, _ => none

def Operation.report : Operation → Nat → Answer
  | .release, left => .last (left == 0)
  | _, left => .count left

structure Call (ι : Type) where
  client : ι
  op : Operation
  answer : Answer

def Call.reportsLast {ι : Type} (call : Call ι) : Bool := call.op.reportsLast call.answer

structure Ownership (ι : Type) where
  counter : ShareCount
  held : ι → Nat

section Entitled

variable {c : ShareCount} {op : Operation} {held left : Nat}

theorem Operation.entitled_eq_some (h : op.entitled held = some left) :
    0 < held ∧ (op = .increment ∨ op = .decrement ∨ op = .release) ∧
      (left : Int) = held + op.shift := by
  cases held with
  | zero => cases op <;> cases h
  | succ held =>
    refine ⟨by omega, ?_, ?_⟩
    · cases op <;> simp_all [Operation.entitled]
    · cases op <;> cases h <;> simp only [Operation.shift] <;> omega

theorem Operation.reportsLast_report (h : op = .increment ∨ op = .decrement ∨ op = .release)
    (hleft : op = .increment → 0 < left) : op.reportsLast (op.report left) = (left == 0) := by
  rcases h with rfl | rfl | rfl
  · have hpos := hleft rfl
    symm
    simp only [Operation.reportsLast, beq_eq_false_iff_ne]
    omega
  · simp [Operation.reportsLast, Operation.report]
  · simp [Operation.reportsLast, Operation.report]

theorem answer_of_alive (hop : op = .increment ∨ op = .decrement ∨ op = .release)
    (halive : 0 < c.refs.toInt) (hleft : (left : Int) = c.refs.toInt + op.shift)
    (hroom : left < 2 ^ 31) : (c.perform op).1 = op.report left := by
  have hsome : ¬ c.refs.toInt ≤ 0 := by omega
  have hcount : left = (c.refs.toInt + op.shift).toNat := by omega
  rcases hop with rfl | rfl | rfl
  · have hfull : c.refs.toInt ≠ 2 ^ 31 - 1 := by
      rw [Operation.shift] at hleft
      omega
    simp only [perform, increment_eq, if_neg hsome, if_neg hfull, hcount]
    rfl
  · simp only [perform, decrement_eq, if_neg hsome, hcount]
    rfl
  · simp only [perform, release_eq, decrement_eq, if_neg hsome, hcount]
    rfl

end Entitled

namespace Ownership

variable {ι : Type} [Fintype ι]

def total (s : Ownership ι) : Nat := ∑ i, s.held i

def Exact (s : Ownership ι) : Prop := s.counter.refs.toInt = s.total

variable [DecidableEq ι]

/-- One of the clients makes a call that its shares entitle it to, at any time. The shares stay
within what the counter can count. -/
inductive Step (s : Ownership ι) : Call ι → Ownership ι → Prop
  | call {i : ι} {op : Operation} {left : Nat} {c : ShareCount}
      (hop : op.entitled (s.held i) = some left) (hc : (s.counter.perform op).2 = some c)
      (hroom : total ⟨c, Function.update s.held i left⟩ < 2 ^ 31) :
      Step s ⟨i, op, (s.counter.perform op).1⟩ ⟨c, Function.update s.held i left⟩

inductive Run : Ownership ι → List (Call ι) → Ownership ι → Prop
  | nil (s : Ownership ι) : Run s [] s
  | cons {s t u : Ownership ι} {call : Call ι} {calls : List (Call ι)} :
      Step s call t → Run t calls u → Run s (call :: calls) u

variable {s t : Ownership ι} {call : Call ι} {calls : List (Call ι)}

theorem exists_others (s : Ownership ι) (c : ShareCount) (i : ι) (left : Nat) :
    ∃ others, s.total = s.held i + others ∧
      total ⟨c, Function.update s.held i left⟩ = left + others :=
  ⟨_, Finset.sum_eq_add_sum_sdiff_singleton_of_mem (Finset.mem_univ i) s.held,
    Finset.sum_update_of_mem (Finset.mem_univ i) s.held left⟩

theorem Exact.step (hs : s.Exact) (h : Step s call t) :
    t.Exact ∧ 0 < s.total ∧ call.answer = call.op.report t.total ∧
      call.reportsLast = (t.total == 0) := by
  cases h with
  | @call i op left c hop hc hroom =>
    obtain ⟨hheld, hkind, hleft⟩ := Operation.entitled_eq_some hop
    obtain ⟨others, hbefore, hafter⟩ := s.exists_others c i left
    let n := total ⟨c, Function.update s.held i left⟩
    have hn : (n : Int) = s.counter.refs.toInt + op.shift := by
      rw [hs]
      omega
    have hexact : c.refs.toInt = n := by
      have hshifted := toInt_shifted op s.counter
      rw [hc, Option.getD_some, ← hn] at hshifted
      rw [hshifted]
      exact Int.bmod_eq_of_le (by omega) (by omega)
    have hanswer : (s.counter.perform op).1 = op.report n := by
      refine answer_of_alive hkind ?_ hn hroom
      rw [hs]
      omega
    refine ⟨hexact, by omega, hanswer, ?_⟩
    rw [Call.reportsLast, hanswer]
    apply Operation.reportsLast_report hkind
    rintro rfl
    rw [Operation.shift] at hleft
    omega

theorem Exact.run (h : Run s calls t) (hs : s.Exact) : t.Exact ∧
    (∀ call ∈ calls, ∀ f, call.answer ≠ .fault f) ∧
    calls.countP (·.reportsLast) = if 0 < s.total ∧ t.total = 0 then 1 else 0 := by
  induction h with
  | nil s =>
    refine ⟨hs, by simp, ?_⟩
    rw [if_neg (by omega)]
    rfl
  | @cons s t u call calls hstep hrun ih =>
    obtain ⟨ht, hpos, hanswer, hlast⟩ := hs.step hstep
    obtain ⟨hu, hfaults, hcount⟩ := ih ht
    refine ⟨hu, ?_, ?_⟩
    · intro called hmem
      rcases List.mem_cons.1 hmem with rfl | hmem
      · rw [hanswer]
        intro f
        cases called.op <;> simp [Operation.report]
      · exact hfaults called hmem
    · rw [List.countP_cons, hcount, hlast]
      -- Nothing comes after the call that leaves no share.
      have hdead (hzero : t.total = 0) : u = t := by
        cases hrun with
        | nil => rfl
        | cons hnext _ =>
          obtain ⟨-, hsome, -⟩ := ht.step hnext
          omega
      by_cases hzero : t.total = 0
      · simp [hdead hzero, hzero, hpos]
      · simp [hzero, hpos, Nat.pos_of_ne_zero hzero]

/-- A counter starts with as many shares as its clients have between them, and they make any calls
that their shares entitle them to. Then the count is always the number of shares, and whoever makes
a call is told the number that it leaves. So one call at most gives back the last share, with none to
make after it, and the counter can be destroyed from then on and not before. -/
theorem shares_counted (held : ι → Nat) (n : UInt32) (hn : n.toNat < 2 ^ 31)
    (hheld : ∑ i, held i = n.toNat) :
    ∃ c, new n = .ok c ∧ ∀ calls s, Run ⟨c, held⟩ calls s →
      s.counter.current = s.total ∧
      s.counter.destroy =
        (if s.total = 0 then .ok () else .error (.stillReferenced s.counter.refs)) ∧
      (∀ call ∈ calls, ∀ f, call.answer ≠ .fault f) ∧
      calls.countP (·.reportsLast) = (if 0 < n.toNat ∧ s.total = 0 then 1 else 0) ∧
      ∀ call t, Step s call t → 0 < s.total ∧ t.counter.current = t.total ∧
        call.answer = call.op.report t.total := by
  refine ⟨⟨Int32.ofNat n.toNat⟩, if_pos hn, ?_⟩
  intro calls s hrun
  have hcurrent {s : Ownership ι} (hs : s.Exact) : s.counter.current = s.total := by
    rw [current, hs]
    rfl
  have hfresh : Exact ⟨⟨Int32.ofNat n.toNat⟩, held⟩ := by
    rw [Exact, total, hheld]
    exact Int32.toInt_ofNat_of_lt hn
  obtain ⟨hs, hfaults, hcount⟩ := hfresh.run hrun
  have hstart : total ⟨⟨Int32.ofNat n.toNat⟩, held⟩ = n.toNat := hheld
  rw [hstart] at hcount
  refine ⟨hcurrent hs, ?_, hfaults, hcount, ?_⟩
  · have hzero : s.counter.refs = 0 ↔ s.total = 0 := by
      rw [← Int32.toInt_inj, hs]
      exact Int.natCast_eq_zero
    simp only [destroy, hzero]
  · intro call t hstep
    obtain ⟨ht, hpos, hanswer, -⟩ := hs.step hstep
    exact ⟨hpos, hcurrent ht, hanswer⟩

theorem shares_counted_of_two :
    let calls : List (Call Bool) := [⟨true, .increment, .count 3⟩, ⟨false, .decrement, .count 2⟩,
      ⟨true, .release, .last false⟩, ⟨true, .decrement, .count 0⟩]
    ∃ s, Run ⟨⟨2⟩, fun _ ↦ 1⟩ calls s ∧ s.counter.current = 0 ∧ s.counter.destroy = .ok () ∧
      calls.countP (·.reportsLast) = 1 := by
  intro calls
  obtain ⟨s, hrun, hnone⟩ : ∃ s, Run ⟨⟨2⟩, fun _ ↦ 1⟩ calls s ∧ s.total = 0 := by
    refine ⟨_, .cons (.call rfl rfl ?_) (.cons (.call rfl rfl ?_) (.cons (.call rfl rfl ?_)
      (.cons (.call rfl rfl ?_) (.nil _)))), ?_⟩ <;> decide
  obtain ⟨c, hc, hcounted⟩ := shares_counted (fun _ : Bool ↦ 1) 2 (by decide) (by decide)
  cases hc
  obtain ⟨hcurrent, hdestroy, -, hlast, -⟩ := hcounted calls s hrun
  rw [hnone] at hcurrent hdestroy
  exact ⟨s, hrun, hcurrent, hdestroy, hlast.trans (if_pos ⟨by decide, hnone⟩)⟩

end Ownership

end SyncKit.ShareCount
