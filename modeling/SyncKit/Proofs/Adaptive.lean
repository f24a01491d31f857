import SyncKit.Proofs.Spin

namespace SyncKit.Spin

section Acquire

inductive Call
  | attempt
  | sleep
  deriving DecidableEq

/-- The calls of an acquisition in which the `n`-th try is answered by `answers n`, in the order in
which they are made. -/
def calls (answers : Nat → Bool) (estimate : Int32) : List Call :=
  let attempt (made : List Call) : Except Overflow Bool × List Call :=
    (.ok (answers (made.length + 1)), made ++ [.attempt])
  match phase attempt (tries estimate) 0 [] with
  | (.ok none, made) => made ++ [.sleep]
  | (_, made) => made

variable (answers : Nat → Bool) (e : Int32)

def firstWon (n : Nat) : Option Nat := (List.range' 1 n).find? answers

variable {answers e}

theorem firstWon_eq_some {n k : Nat} :
    firstWon answers n = some k ↔
      answers k ∧ 1 ≤ k ∧ k ≤ n ∧ ∀ j, 1 ≤ j → j < k → answers j = false := by
  rw [firstWon, List.find?_range'_eq_some, List.mem_range'_1]
  simp only [Bool.not_eq_eq_eq_not, Bool.not_true]
  constructor
  · rintro ⟨hk, ⟨hlow, hhigh⟩, hfirst⟩
    exact ⟨hk, hlow, by omega, hfirst⟩
  · rintro ⟨hk, hlow, hhigh, hfirst⟩
    exact ⟨hk, ⟨hlow, by omega⟩, hfirst⟩

theorem firstWon_le {n k : Nat} (h : firstWon answers n = some k) : 1 ≤ k ∧ k ≤ n := by
  obtain ⟨-, hlow, hhigh, -⟩ := firstWon_eq_some.1 h
  exact ⟨hlow, hhigh⟩

theorem phase_eq_firstWon {σ ε : Type} (attempt : σ → Except ε Bool × σ) (S : Nat → σ)
    (hS : ∀ k, attempt (S k) = (.ok (answers (k + 1)), S (k + 1))) (n : Nat) :
    phase attempt n 0 (S 0) = (.ok (firstWon answers n), S ((firstWon answers n).getD n)) := by
  have hphase := phase_eq_find? hS n 0
  rwa [Nat.zero_add, Nat.zero_add] at hphase

theorem acquire_eq :
    acquire answers e =
      let won := firstWon answers (tries e)
      ⟨won.getD (tries e), if won.isSome then 0 else 1, next e (spent e won)⟩ := by
  unfold acquire
  generalize tries e = n
  let attempt (made : Nat) : Except Overflow Bool × Nat := (.ok (answers (made + 1)), made + 1)
  have hattempt : ∀ k, attempt (id k) = (.ok (answers (k + 1)), id (k + 1)) := fun _ ↦ rfl
  have hphase := phase_eq_firstWon attempt id hattempt n
  simp only [id_eq, attempt] at hphase
  simp only [hphase]

theorem calls_eq :
    calls answers e =
      let won := firstWon answers (tries e)
      List.replicate (won.getD (tries e)) .attempt ++
        List.replicate (if won.isSome then 0 else 1) .sleep := by
  unfold calls
  generalize tries e = n
  let attempt (made : List Call) : Except Overflow Bool × List Call :=
    (.ok (answers (made.length + 1)), made ++ [.attempt])
  have hattempt : ∀ k, attempt (List.replicate k .attempt) =
      (.ok (answers (k + 1)), List.replicate (k + 1) .attempt) := by
    intro k
    simp only [attempt, List.length_replicate, ← List.replicate_succ']
  have hphase := phase_eq_firstWon attempt (List.replicate · .attempt) hattempt n
  simp only [List.replicate_zero, attempt] at hphase
  cases hwon : firstWon answers n with
  | none => simp [hphase, hwon]
  | some k => simp [hphase, hwon]

end Acquire

theorem between_of_tdiv (e s : Int) :
    min e s ≤ e + (s - e).tdiv 8 ∧ e + (s - e).tdiv 8 ≤ max e s := by
  rw [tdiv_eight]
  split <;> omega

/-- What a call can spend is too far only from the lowest estimates, and those allow no try. -/
theorem next_of_spent {e s : Int32} (hpos : 1 ≤ s.toInt) (hle : s.toInt ≤ tries e + 1) :
    e.toInt ≤ -2 ^ 31 + 1 ∧ tries e = 0 ∧ next e s = .error .subtract ∨
      -2 ^ 31 + 1 < e.toInt ∧ ∃ moved, next e s = .ok moved ∧
        moved.toInt = e.toInt + (s.toInt - e.toInt).tdiv 8 ∧
        min e.toInt s.toInt ≤ moved.toInt ∧ moved.toInt ≤ max e.toInt s.toInt := by
  have htries := tries_eq e
  have he := e.le_toInt
  have he' := e.toInt_lt
  by_cases hlow : e.toInt ≤ -2 ^ 31 + 1
  · refine .inl ⟨hlow, by omega, next_of_too_far ?_⟩
    rw [Checked.Fits]
    omega
  · have hfits : Checked.Fits (s.toInt - e.toInt) := ⟨by omega, by omega⟩
    obtain ⟨moved, hnext, hmoved⟩ := next_of_fits hfits
    exact .inr ⟨by omega, moved, hnext, hmoved, hmoved ▸ between_of_tdiv _ _⟩

/-- An acquisition goes on to the first try that succeeds, sleeps when none that it may make does,
and moves its estimate towards what it spent. Only an estimate at the very bottom of its range
faults, and then the call has slept. -/
theorem acquire_adaptive (answers : Nat → Bool) (estimate : Int32) :
    let acquisition : Acquisition := acquire answers estimate
    let most := (max 0 (min (2 * estimate.toInt + 10) 100)).toNat
    let won := firstWon answers most
    let made := won.getD most
    let sleeps := if won.isSome then 0 else 1
    let spent : Int := (won.getD (most + 1) : Nat)
    acquisition.tries = made ∧ acquisition.sleeps = sleeps ∧
      calls answers estimate = List.replicate made .attempt ++ List.replicate sleeps .sleep ∧
      (estimate.toInt ≤ -2 ^ 31 + 1 ∧ sleeps = 1 ∧ acquisition.estimate = .error .subtract ∨
        -2 ^ 31 + 1 < estimate.toInt ∧ ∃ moved, acquisition.estimate = .ok moved ∧
          moved.toInt = estimate.toInt + (spent - estimate.toInt).tdiv 8 ∧
          min estimate.toInt spent ≤ moved.toInt ∧ moved.toInt ≤ max estimate.toInt spent) := by
  intro acquisition most won made sleeps spent
  have hmost : (most : Int) = max 0 (min (2 * estimate.toInt + 10) 100) :=
    Int.toNat_of_nonneg (Int.le_max_left _ _)
  have htries : tries estimate = most := by
    have htries := tries_eq estimate
    omega
  have hacq : acquisition = ⟨made, sleeps, next estimate (Spin.spent estimate won)⟩ := by
    simp only [acquisition, acquire_eq, htries, made, sleeps, won]
  have hwon : ∀ k, won = some k → 1 ≤ k ∧ k ≤ tries estimate :=
    fun _ h ↦ htries ▸ firstWon_le h
  have hspent : (Spin.spent estimate won).toInt = spent := by
    rw [toInt_spent fun k h ↦ (hwon k h).2, htries]
  have hrange := spent_range hwon
  have hnext := next_of_spent hrange.1 hrange.2
  rw [hacq]
  refine ⟨rfl, rfl, ?_, ?_⟩
  · simp only [calls_eq, htries, made, sleeps, won]
  · rw [hspent] at hnext
    obtain ⟨hlow, hnone, hfault⟩ | hmoved := hnext
    · have hnever : won = none := by
        simp only [won, ← htries, hnone, firstWon, List.range'_zero, List.find?_nil]
      exact .inl ⟨hlow, by simp only [sleeps, hnever]; rfl, hfault⟩
    · exact .inr hmoved

end SyncKit.Spin
