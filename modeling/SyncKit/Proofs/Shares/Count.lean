import Mathlib.Algebra.Ring.Int.Defs
import Mathlib.Algebra.Ring.Nat
import SyncKit.ShareCount

namespace SyncKit.ShareCount

/-- What a call adds to the stored count, whether the call is refused or not. -/
def Operation.shift : Operation → Int
  | .increment => 1
  | .incrementFirst => 1
  | .decrement => -1
  | .release => -1
  | _ => 0

def drift (ops : List Operation) : Int := (ops.map Operation.shift).sum

def Operation.reportsLast : Operation → Answer → Bool
  | .decrement, answer => answer == .count 0
  | .release, answer => answer == .last true
  | _, _ => false

def after (c : ShareCount) (ops : List Operation) : ShareCount :=
  ops.foldl (fun c op ↦ (c.perform op).2.getD c) c

def answerTo (c : ShareCount) (earlier : List Operation) (op : Operation) : Option Answer :=
  (run (earlier ++ [op]) (some c)).getLast?.map (·.1)

section Count

variable {c : ShareCount} {op : Operation}

theorem toInt_shifted (op : Operation) (c : ShareCount) :
    ((c.perform op).2.getD c).refs.toInt = (c.refs.toInt + op.shift).bmod (2 ^ 32) := by
  have hkeep : c.refs.toInt = (c.refs.toInt + 0).bmod (2 ^ 32) := by
    rw [Int.add_zero]
    exact c.refs.toInt_bmod.symm
  have htake : (c.refs - 1).toInt = (c.refs.toInt + -1).bmod (2 ^ 32) := Int32.toInt_sub c.refs 1
  cases op with
  | increment => exact Int32.toInt_add c.refs 1
  | incrementFirst => exact Int32.toInt_add c.refs 1
  | decrement => exact htake
  | release => exact htake
  | current => exact hkeep
  | describe => exact hkeep
  | destroy => exact hkeep

theorem addShare_eq (least : Int32) (c : ShareCount) :
    (c.addShare least).1 = if c.refs.toInt < least.toInt then .error .fromZero
      else if c.refs.toInt = 2 ^ 31 - 1 then .error .overflowed
      else .ok (c.refs.toInt + 1).toNat := by
  have htop : c.refs = Int32.maxValue ↔ c.refs.toInt = 2 ^ 31 - 1 := by
    rw [← Int32.toInt_inj, Int32.toInt_maxValue]
  simp only [addShare, Int32.lt_iff_toInt_lt, htop]

theorem increment_eq (c : ShareCount) :
    c.increment.1 = if c.refs.toInt ≤ 0 then .error .fromZero
      else if c.refs.toInt = 2 ^ 31 - 1 then .error .overflowed
      else .ok (c.refs.toInt + 1).toNat := by
  have hone : (1 : Int32).toInt = 0 + 1 := rfl
  simp only [increment, addShare_eq, hone, Int.lt_add_one_iff]

theorem incrementFirst_eq (c : ShareCount) :
    c.incrementFirst.1 = if c.refs.toInt < 0 then .error .fromZero
      else if c.refs.toInt = 2 ^ 31 - 1 then .error .overflowed
      else .ok (c.refs.toInt + 1).toNat := addShare_eq 0 c

theorem fault_increment_iff :
    (∃ f, (c.perform .increment).1 = .fault f) ↔
      c.refs.toInt ≤ 0 ∨ c.refs.toInt = 2 ^ 31 - 1 := by
  simp only [perform, increment_eq]
  split
  · next h => exact iff_of_true ⟨_, rfl⟩ (.inl h)
  · next h =>
    split
    · next h' => exact iff_of_true ⟨_, rfl⟩ (.inr h')
    · next h' => exact iff_of_false nofun (not_or.2 ⟨h, h'⟩)

theorem decrement_eq (c : ShareCount) :
    c.decrement.1 = if c.refs.toInt ≤ 0 then .error .alreadyZero
      else .ok (c.refs.toInt - 1).toNat := by
  rw [decrement]
  simp only [Int32.le_iff_toInt_le]
  rfl

theorem release_eq (c : ShareCount) : c.release.1 = c.decrement.1.map (· == 0) := rfl

theorem fault_giveBack_iff (hop : op = .decrement ∨ op = .release) :
    (∃ f, (c.perform op).1 = .fault f) ↔ c.refs.toInt ≤ 0 := by
  rcases hop with rfl | rfl <;> simp only [perform, release_eq, decrement_eq] <;> split
  · next h => exact iff_of_true ⟨_, rfl⟩ h
  · next h => exact iff_of_false nofun h
  · next h => exact iff_of_true ⟨_, rfl⟩ h
  · next h => exact iff_of_false nofun h

theorem reportsLast_iff (hop : op = .decrement ∨ op = .release) :
    op.reportsLast (c.perform op).1 = true ↔ c.refs.toInt = 1 := by
  have hone (h : ¬ c.refs.toInt ≤ 0) : (c.refs.toInt - 1).toNat = 0 ↔ c.refs.toInt = 1 := by omega
  rcases hop with rfl | rfl <;>
    simp only [perform, release_eq, decrement_eq, Operation.reportsLast, beq_iff_eq] <;> split
  · next h => exact iff_of_false nofun (by omega)
  · next h => rw [← hone h, Answer.ofCount, Answer.count.injEq]
  · next h => exact iff_of_false nofun (by omega)
  · next h => rw [← hone h, Except.map, Answer.ofLast, Answer.last.injEq, beq_iff_eq]

theorem giveBack_of_reportsLast {answer : Answer} (h : op.reportsLast answer = true) :
    op = .decrement ∨ op = .release := by
  cases op <;> first | exact .inl rfl | exact .inr rfl | cases h

end Count

section Runs

variable {c : ShareCount} {ops later : List Operation} {op : Operation}

theorem toInt_after (c : ShareCount) (ops : List Operation) :
    (c.after ops).refs.toInt = (c.refs.toInt + drift ops).bmod (2 ^ 32) := by
  induction ops generalizing c with
  | nil =>
    change c.refs.toInt = (c.refs.toInt + 0).bmod (2 ^ 32)
    rw [Int.add_zero]
    exact c.refs.toInt_bmod.symm
  | cons op ops ih =>
    have hdrift : drift (op :: ops) = op.shift + drift ops := rfl
    rw [after, List.foldl_cons, ← after, ih, toInt_shifted, Int.bmod_add_bmod, hdrift,
      Int.add_assoc]

theorem after_append (c : ShareCount) (ops later : List Operation) :
    c.after (ops ++ later) = (c.after ops).after later := List.foldl_append

theorem perform_snd (hop : op ≠ .destroy) : (c.perform op).2 = some ((c.perform op).2.getD c) := by
  cases op <;> first | rfl | exact absurd rfl hop

theorem run_append (hops : .destroy ∉ ops) :
    run (ops ++ later) (some c) = run ops (some c) ++ run later (some (c.after ops)) := by
  induction ops generalizing c with
  | nil => rfl
  | cons op ops ih =>
    rw [List.mem_cons, not_or] at hops
    rw [List.cons_append, run, perform_snd (Ne.symm hops.1), ih hops.2, run,
      perform_snd (Ne.symm hops.1)]
    rfl

theorem answerTo_eq (hops : .destroy ∉ ops) :
    c.answerTo ops op = some ((c.after ops).perform op).1 := by
  rw [answerTo, run_append hops, run, run, List.getLast?_concat]
  rfl

end Runs

end SyncKit.ShareCount
