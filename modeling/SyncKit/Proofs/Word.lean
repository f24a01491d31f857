import Mathlib.Algebra.Group.Int.Defs
import Mathlib.Algebra.Group.Nat.Defs

namespace SyncKit.Word

theorem ofNat_inj {m n : Nat} (hm : m < 2 ^ 32) (hn : n < 2 ^ 32) :
    Int32.ofNat m = Int32.ofNat n ↔ m = n := by
  constructor
  · intro h
    have h' : m % 2 ^ 32 = n % 2 ^ 32 := congrArg (fun a : Int32 ↦ a.toBitVec.toNat) h
    rwa [Nat.mod_eq_of_lt hm, Nat.mod_eq_of_lt hn] at h'
  · rintro rfl
    rfl

theorem add_ofNat_inj {m n : Nat} (t : Int32) (hm : m < 2 ^ 32) (hn : n < 2 ^ 32) :
    t + Int32.ofNat m = t + Int32.ofNat n ↔ m = n := by
  rw [Int32.add_right_inj, ofNat_inj hm hn]

theorem ofNat_and_one (n : Nat) : Int32.ofNat n &&& 1 = Int32.ofNat (n % 2) := by
  apply Int32.toBitVec.inj
  apply BitVec.eq_of_toNat_eq
  simp only [Int32.toBitVec_and, Int32.toBitVec_ofNat', Int32.toBitVec_one, BitVec.toNat_and,
    BitVec.toNat_ofNat, Nat.one_mod, Nat.and_one_is_mod]
  omega

theorem ofNat_and_not_one {n : Nat} (hn : n < 2 ^ 32) :
    Int32.ofNat n &&& ~~~1 = 0 ↔ n < 2 := by
  constructor
  · intro h
    have hb : (Int32.ofNat n).toBitVec &&& ~~~1#32 = 0#32 := congrArg Int32.toBitVec h
    have hall : ~~~1#32 ||| 1#32 = BitVec.allOnes 32 := by decide
    have hone : (Int32.ofNat n).toBitVec &&& 1#32 = (Int32.ofNat n).toBitVec := by
      have he := BitVec.and_or_distrib_left (x := (Int32.ofNat n).toBitVec) (y := ~~~1#32)
        (z := 1#32)
      rw [hb, BitVec.zero_or, hall, BitVec.and_allOnes] at he
      exact he.symm
    have h' := congrArg BitVec.toNat hone
    simp only [Int32.toBitVec_ofNat', BitVec.toNat_and, BitVec.toNat_ofNat, Nat.one_mod,
      Nat.and_one_is_mod, Nat.mod_eq_of_lt hn] at h'
    omega
  · intro h
    have hn : n = 0 ∨ n = 1 := by omega
    rcases hn with rfl | rfl <;> rfl

theorem toInt_succ {a : Int32} (h : a.toInt + 1 < 2 ^ 31) : (a + 1).toInt = a.toInt + 1 := by
  have hlow := a.le_toInt
  have hone : (1 : Int32).toInt = 1 := rfl
  rw [Int32.toInt_add, hone]
  exact Int.bmod_eq_of_le (by omega) (by omega)

theorem toInt_ofIntClamp (n : Int) :
    (Int32.ofIntClamp n).toInt = max (-2 ^ 31) (min n (2 ^ 31 - 1)) := by
  have hmin : Int32.minValue.toInt = -2 ^ 31 := rfl
  have hmax : Int32.maxValue.toInt = 2 ^ 31 - 1 := rfl
  unfold Int32.ofIntClamp
  split
  · split
    · rw [Int32.toInt_ofIntLE]
      omega
    · omega
  · omega

theorem toInt_ofIntClamp_natCast (n : Nat) :
    (Int32.ofIntClamp n).toInt = min (n : Int) (2 ^ 31 - 1) := by
  rw [toInt_ofIntClamp]
  omega

theorem toInt_ofIntClamp_le (n : Nat) : (Int32.ofIntClamp n).toInt ≤ n := by
  rw [toInt_ofIntClamp_natCast]
  exact Int.min_le_left _ _

end SyncKit.Word
