namespace SyncKit

inductive Overflow
  | add
  | subtract
  deriving DecidableEq

def Overflow.message : Overflow → String
  | .add => "attempt to add with overflow"
  | .subtract => "attempt to subtract with overflow"

namespace Checked

def Fits (n : Int) : Prop := -0x80000000 ≤ n ∧ n < 0x80000000

instance (n : Int) : Decidable (Fits n) := inferInstanceAs (Decidable (_ ∧ _))

def add (a b : Int32) : Except Overflow Int32 :=
  if Fits (a.toInt + b.toInt) then .ok (a + b) else .error .add

def subtract (a b : Int32) : Except Overflow Int32 :=
  if Fits (a.toInt - b.toInt) then .ok (a - b) else .error .subtract

def increment (n : UInt32) : Except Overflow UInt32 :=
  if n.toNat + 1 < 0x100000000 then .ok (n + 1) else .error .add

def decrement (n : UInt32) : Except Overflow UInt32 :=
  if n = 0 then .error .subtract else .ok (n - 1)

theorem Fits.bmod_eq {n : Int} (h : Fits n) : n.bmod 0x100000000 = n := by
  unfold Fits at h
  exact Int.bmod_eq_of_le (by omega) (by omega)

theorem toInt_of_add {a b c : Int32} (h : add a b = .ok c) : c.toInt = a.toInt + b.toInt := by
  unfold add at h
  split at h
  · next hf =>
    cases h
    rw [Int32.toInt_add, hf.bmod_eq]
  · cases h

theorem toInt_of_subtract {a b c : Int32} (h : subtract a b = .ok c) :
    c.toInt = a.toInt - b.toInt := by
  unfold subtract at h
  split at h
  · next hf =>
    cases h
    rw [Int32.toInt_sub, hf.bmod_eq]
  · cases h

theorem toNat_of_increment {n m : UInt32} (h : increment n = .ok m) : m.toNat = n.toNat + 1 := by
  unfold increment at h
  split at h
  · next hn =>
    cases h
    rw [UInt32.toNat_add]
    exact Nat.mod_eq_of_lt hn
  · cases h

theorem toNat_of_decrement {n m : UInt32} (h : decrement n = .ok m) : m.toNat + 1 = n.toNat := by
  unfold decrement at h
  split at h
  · cases h
  · next hn =>
    cases h
    have hn' : n.toNat ≠ 0 := fun h0 ↦ hn (UInt32.toNat_inj.1 h0)
    have hle : (1 : UInt32) ≤ n := by
      rw [UInt32.le_iff_toNat_le]
      exact Nat.one_le_iff_ne_zero.2 hn'
    rw [UInt32.toNat_sub_of_le _ _ hle]
    exact Nat.succ_pred hn'

theorem increment_of_lt {n : UInt32} (h : n.toNat + 1 < 0x100000000) : increment n = .ok (n + 1) :=
  if_pos h

theorem increment_of_full {n : UInt32} (h : ¬ n.toNat + 1 < 0x100000000) :
    increment n = .error .add :=
  if_neg h

theorem decrement_of_pos {n : UInt32} (h : 0 < n.toNat) : decrement n = .ok (n - 1) := by
  refine if_neg ?_
  rintro rfl
  exact Nat.lt_irrefl 0 h

end Checked

end SyncKit
