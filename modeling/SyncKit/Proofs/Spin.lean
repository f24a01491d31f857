import SyncKit.Proofs.Word
import SyncKit.Spin

namespace SyncKit.Spin

theorem toInt_min (a b : Int32) : (min a b).toInt = min a.toInt b.toInt := by
  simp only [Min.min, Int32.le_iff_toInt_le]
  split <;> rfl

theorem toInt_budget (e : Int32) :
    (budget e).toInt = min (max (2 * e.toInt) (-2 ^ 31) + 10) 100 := by
  have hb : base.toInt = 10 := rfl
  have hc : ceiling.toInt = 100 := rfl
  have hle := e.toInt_le
  have hge := e.le_toInt
  simp only [budget, toInt_min, Word.toInt_ofIntClamp, hb, hc]
  omega

/-- Clamping on the way does not show: a budget that is clamped from below has no tries. -/
theorem tries_eq (e : Int32) : (tries e : Int) = max 0 (min (2 * e.toInt + 10) 100) := by
  rw [tries, toInt_budget]
  omega

theorem toInt_spent {e : Int32} {won : Option Nat} (h : ∀ made, won = some made → made ≤ tries e) :
    (spent e won).toInt = (won.getD (tries e + 1) : Nat) := by
  have ht := tries_eq e
  cases won with
  | none => exact Int32.toInt_ofNat_of_lt (by omega)
  | some made =>
    have hmade := h made rfl
    exact Int32.toInt_ofNat_of_lt (by omega)

theorem spent_range {e : Int32} {won : Option Nat}
    (h : ∀ made, won = some made → 1 ≤ made ∧ made ≤ tries e) :
    1 ≤ (spent e won).toInt ∧ (spent e won).toInt ≤ tries e + 1 := by
  rw [toInt_spent fun made hmade ↦ (h made hmade).2]
  cases won with
  | none =>
    rw [Option.getD_none]
    omega
  | some made =>
    have hmade := h made rfl
    rw [Option.getD_some]
    omega

theorem tdiv_eight (n : Int) : n.tdiv 8 = if 0 ≤ n then n / 8 else -(-n / 8) := by
  split
  · next h => exact Int.tdiv_eq_ediv_of_nonneg h
  · next h =>
    rw [← Int.tdiv_eq_ediv_of_nonneg (a := -n) (by omega), Int.neg_tdiv, Int.neg_neg]

theorem next_of_fits {e s : Int32} (h : Checked.Fits (s.toInt - e.toInt)) :
    ∃ moved, next e s = .ok moved ∧ moved.toInt = e.toInt + (s.toInt - e.toInt).tdiv 8 := by
  have hgap : Checked.subtract s e = .ok (s - e) := if_pos h
  have hd : ((s - e) / 8).toInt = (s.toInt - e.toInt).tdiv 8 := by
    rw [Int32.toInt_div_of_ne_right _ _ (by decide), Checked.toInt_of_subtract hgap]
    rfl
  have hf : Checked.Fits (e.toInt + ((s - e) / 8).toInt) := by
    have he := e.toInt_lt
    have he' := e.le_toInt
    have hs := s.toInt_lt
    have hs' := s.le_toInt
    rw [hd, tdiv_eight, Checked.Fits]
    split <;> omega
  have hadd : Checked.add e ((s - e) / 8) = .ok (e + (s - e) / 8) := if_pos hf
  refine ⟨e + (s - e) / 8, ?_, ?_⟩
  · simp [next, hgap, hadd, bind, Except.bind]
  · rw [Checked.toInt_of_add hadd, hd]

theorem next_of_too_far {e s : Int32} (h : ¬ Checked.Fits (s.toInt - e.toInt)) :
    next e s = .error .subtract := by
  have hgap : Checked.subtract s e = .error .subtract := if_neg h
  simp [next, hgap, bind, Except.bind]

section Settled

/-- The estimates that calls can leave behind when they start from zero. -/
def Settled (estimate : Int32) : Prop := 0 ≤ estimate.toInt ∧ estimate.toInt ≤ 94

variable {e : Int32}

theorem tries_bounds (h : Settled e) : 10 ≤ tries e ∧ tries e ≤ 100 := by
  have ht := tries_eq e
  obtain ⟨hlow, hhigh⟩ := h
  omega

theorem tries_pos (h : Settled e) : 0 < tries e :=
  Nat.lt_of_lt_of_le (by decide) (tries_bounds h).1

theorem spent_bounds (h : Settled e) {won : Option Nat}
    (hwon : ∀ made, won = some made → 1 ≤ made ∧ made ≤ tries e) :
    1 ≤ (spent e won).toInt ∧ (spent e won).toInt ≤ 101 := by
  have ht := tries_bounds h
  have hrange := spent_range hwon
  omega

theorem spent_none_bounds (h : Settled e) :
    1 ≤ (spent e none).toInt ∧ (spent e none).toInt ≤ 101 :=
  spent_bounds h (by simp)

theorem spent_one (e : Int32) : (spent e (some 1)).toInt = 1 := rfl

/-- Moving an eighth of the way towards what a call spent keeps the estimate in range. -/
theorem next_settled {s : Int32} (h : Settled e) (hs : 1 ≤ s.toInt ∧ s.toInt ≤ 101) :
    ∃ moved, next e s = .ok moved ∧ Settled moved := by
  obtain ⟨hlow, hhigh⟩ := h
  obtain ⟨moved, hnext, hmoved⟩ := next_of_fits (e := e) (s := s) ⟨by omega, by omega⟩
  refine ⟨moved, hnext, ?_⟩
  rw [Settled, hmoved, tdiv_eight]
  split <;> omega

end Settled

section Phase

variable {σ ε : Type}

theorem phase_eq_find? {attempt : σ → Except ε Bool × σ} {answers : Nat → Bool} {S : Nat → σ}
    (hS : ∀ k, attempt (S k) = (.ok (answers (k + 1)), S (k + 1))) (n made : Nat) :
    phase attempt n made (S made) =
      let won := (List.range' (made + 1) n).find? answers
      (.ok won, S (won.getD (made + n))) := by
  induction n generalizing made with
  | zero => rfl
  | succ n ih =>
    rw [phase, hS, List.range'_succ]
    cases ha : answers (made + 1) with
    | true => simp only [List.find?_cons_of_pos ha, Option.getD_some]
    | false =>
      have hneg : ¬ answers (made + 1) = true := ne_true_of_eq_false ha
      simp only [ih, List.find?_cons_of_neg hneg, Nat.add_right_comm made 1 n, Nat.add_assoc]

theorem made_of_phase {attempt : σ → Except ε Bool × σ} {n made k : Nat} {s t : σ}
    (h : phase attempt n made s = (.ok (some k), t)) : made < k ∧ k ≤ made + n := by
  induction n generalizing made s with
  | zero => cases h
  | succ n ih =>
    rw [phase] at h
    split at h
    · cases h
      omega
    · have hk := ih h
      omega
    · cases h

theorem phase_of_refused {attempt : σ → Except ε Bool × σ} {s : σ}
    (h : attempt s = (.ok false, s)) (n made : Nat) : phase attempt n made s = (.ok none, s) := by
  induction n generalizing made with
  | zero => rfl
  | succ n ih => simp only [phase, h, ih]

theorem phase_of_won {attempt : σ → Except ε Bool × σ} {s t : σ}
    (h : attempt s = (.ok true, t)) {n : Nat} (hn : 0 < n) (made : Nat) :
    phase attempt n made s = (.ok (some (made + 1)), t) := by
  cases n with
  | zero => omega
  | succ n => simp only [phase, h]

theorem phase_of_faulted {attempt : σ → Except ε Bool × σ} {s t : σ} {e : ε}
    (h : attempt s = (.error e, t)) {n : Nat} (hn : 0 < n) (made : Nat) :
    phase attempt n made s = (.error e, t) := by
  cases n with
  | zero => omega
  | succ n => simp only [phase, h]

end Phase

end SyncKit.Spin
