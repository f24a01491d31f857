import SyncKit.Proofs.Shares.Ownership

namespace SyncKit.ShareCount

/-- What may be asked of a natural number of shares, of which the counter can count 2^31 - 1. -/
def Operation.Legal (k : Nat) : Operation → Prop
  | .increment => 0 < k ∧ k < 2 ^ 31 - 1
  | .incrementFirst => k < 2 ^ 31 - 1
  | .decrement => 0 < k
  | .release => 0 < k
  | .current => True
  | .describe => True
  | .destroy => k = 0

def Operation.left (k : Nat) : Operation → Nat
  | .increment => k + 1
  | .incrementFirst => k + 1
  | .decrement => k - 1
  | .release => k - 1
  | _ => k

def Operation.told (left : Nat) : Operation → Answer
  | .describe => .text ("RefCount \x7b refs: " ++ toString left ++ " \x7d")
  | .destroy => .done
  | op => op.report left

def Operation.reason (k : Nat) : Operation → Fault
  | .increment => if k = 0 then .fromZero else .overflowed
  | .incrementFirst => .overflowed
  | .destroy => .stillReferenced (Int32.ofNat k)
  | _ => .alreadyZero

/-- A log of calls that goes as it does for a natural number, up to the first refusal: until then
every call is legal, is told the number, and the word that is stored is the number. -/
inductive Counts : Nat → List Operation → List (Answer × Option ShareCount) → Prop
  | nil (k : Nat) : Counts k [] []
  | served {k : Nat} {op : Operation} {later : List Operation} {c : ShareCount}
      {log : List (Answer × Option ShareCount)} :
      op ≠ .destroy → op.Legal k → c.refs.toInt = op.left k → Counts (op.left k) later log →
      Counts k (op :: later) ((op.told (op.left k), some c) :: log)
  | destroyed {k : Nat} {later : List Operation} {log : List (Answer × Option ShareCount)} :
      Operation.destroy.Legal k → Counts k (.destroy :: later) ((.done, none) :: log)
  | refused {k : Nat} {op : Operation} {later : List Operation} {c : Option ShareCount}
      {log : List (Answer × Option ShareCount)} :
      ¬ op.Legal k → Counts k (op :: later) ((.fault (op.reason k), c) :: log)

section Calls

variable {c : ShareCount} {op : Operation} {k : Nat}

theorem Operation.left_eq (hop : op.Legal k) (hk : k < 2 ^ 31) :
    (op.left k : Int) = k + op.shift ∧ op.left k < 2 ^ 31 := by
  cases op <;> simp only [Legal, left, shift] at hop ⊢ <;> omega

theorem toInt_of_legal (hc : c.refs.toInt = k) (hop : op.Legal k) :
    ((c.perform op).2.getD c).refs.toInt = op.left k := by
  have hbound := c.refs.toInt_lt
  obtain ⟨hleft, hroom⟩ := Operation.left_eq hop (by omega)
  rw [toInt_shifted, hc, ← hleft]
  exact Int.bmod_eq_of_le (by omega) (by omega)

theorem answer_of_legal (hc : c.refs.toInt = k) (hop : op.Legal k) :
    (c.perform op).1 = op.told (op.left k) := by
  cases op with
  | increment =>
    obtain ⟨hpos, hroom⟩ := hop
    simp only [perform, increment_eq, hc]
    rw [if_neg (by omega), if_neg (by omega)]
    rfl
  | incrementFirst =>
    have hroom : k < 2 ^ 31 - 1 := hop
    simp only [perform, incrementFirst_eq, hc]
    rw [if_neg (by omega), if_neg (by omega)]
    rfl
  | decrement =>
    have hpos : 0 < k := hop
    have hless : ((k : Int) - 1).toNat = k - 1 := by omega
    simp only [perform, decrement_eq, hc, hless]
    rw [if_neg (by omega)]
    rfl
  | release =>
    have hpos : 0 < k := hop
    have hless : ((k : Int) - 1).toNat = k - 1 := by omega
    simp only [perform, release_eq, decrement_eq, hc, hless]
    rw [if_neg (by omega)]
    rfl
  | current =>
    change Answer.count c.refs.toInt.toNat = Answer.count k
    rw [hc, Int.toNat_natCast]
  | describe =>
    have htext : toString c.refs = toString k := by
      change toString c.refs.toInt = toString k
      rw [hc]
      rfl
    exact congrArg (fun n ↦ Answer.text ("RefCount \x7b refs: " ++ n ++ " \x7d")) htext
  | destroy =>
    have hzero : c.refs = 0 := by
      rw [← Int32.toInt_inj, hc, show k = 0 from hop]
      rfl
    simp only [perform, destroy, hzero]
    rfl

theorem answer_of_not_legal (hc : c.refs.toInt = k) (hop : ¬ op.Legal k) :
    (c.perform op).1 = .fault (op.reason k) := by
  have hbound := c.refs.toInt_lt
  cases op with
  | increment =>
    simp only [perform, increment_eq, hc, Operation.reason]
    by_cases hzero : k = 0
    · rw [if_pos (by omega), if_pos hzero]
      rfl
    · have hfull : ¬ k < 2 ^ 31 - 1 := fun hroom ↦ hop ⟨Nat.pos_of_ne_zero hzero, hroom⟩
      rw [if_neg (by omega), if_pos (by omega), if_neg hzero]
      rfl
  | incrementFirst =>
    have hfull : ¬ k < 2 ^ 31 - 1 := hop
    simp only [perform, incrementFirst_eq, hc]
    rw [if_neg (by omega), if_pos (by omega)]
    rfl
  | decrement =>
    have hzero : ¬ 0 < k := hop
    simp only [perform, decrement_eq, hc]
    rw [if_pos (by omega)]
    rfl
  | release =>
    have hzero : ¬ 0 < k := hop
    simp only [perform, release_eq, decrement_eq, hc]
    rw [if_pos (by omega)]
    rfl
  | current => exact absurd trivial hop
  | describe => exact absurd trivial hop
  | destroy =>
    have hrefs : c.refs = Int32.ofNat k := by
      rw [← Int32.toInt_inj, hc, Int32.toInt_ofNat_of_lt (by omega)]
    have hsome : c.refs ≠ 0 := by
      intro hzero
      rw [hzero] at hc
      exact hop (Int.natCast_eq_zero.1 hc.symm)
    change Answer.ofUnit c.destroy = .fault (.stillReferenced (Int32.ofNat k))
    rw [destroy, if_neg hsome, hrefs]
    rfl

end Calls

theorem counts_run (ops : List Operation) {c : ShareCount} {k : Nat} (hc : c.refs.toInt = k) :
    Counts k ops (run ops (some c)) := by
  induction ops generalizing c k with
  | nil => exact .nil k
  | cons op later ih =>
    rw [run]
    by_cases hop : op.Legal k
    · have hanswer := answer_of_legal hc hop
      by_cases hlast : op = .destroy
      · subst hlast
        have hgone : c.perform .destroy = (.done, none) := Prod.ext hanswer rfl
        rw [hgone]
        exact .destroyed hop
      · have hrefs := toInt_of_legal hc hop
        have hstep : c.perform op = (op.told (op.left k), some ((c.perform op).2.getD c)) :=
          Prod.ext hanswer (perform_snd hlast)
        rw [hstep]
        exact .served hlast hop hrefs (ih hrefs)
    · have hstep : c.perform op = (.fault (op.reason k), (c.perform op).2) :=
        Prod.ext (answer_of_not_legal hc hop) rfl
      rw [hstep]
      exact .refused hop

/-- A counter is a natural number for as long as it is asked nothing that such a number has no
answer to: legal calls are told the number that they leave, the word holds that number, and the
first call that is not legal is refused for its own reason. -/
theorem counts_as_number (n : UInt32) :
    (2 ^ 31 - 1 < n.toNat → new n = .error .overflowed) ∧
      (n.toNat ≤ 2 ^ 31 - 1 → ∃ c, new n = .ok c ∧ c.refs.toInt = n.toNat ∧
        ∀ ops, Counts n.toNat ops (run ops (some c))) := by
  constructor
  · intro hn
    exact if_neg (by omega)
  · intro hn
    have hrefs : (Int32.ofNat n.toNat).toInt = n.toNat := Int32.toInt_ofNat_of_lt (by omega)
    exact ⟨⟨Int32.ofNat n.toNat⟩, if_pos (by omega), hrefs, fun ops ↦ counts_run ops hrefs⟩

theorem counts_as_number_at_top :
    let ops : List Operation := [.incrementFirst, .release, .increment, .current, .increment]
    ∃ c, new 0x7ffffffe = .ok c ∧ c.refs.toInt = 2 ^ 31 - 2 ∧
      Counts (2 ^ 31 - 2) ops (run ops (some c)) := by
  intro ops
  obtain ⟨c, hnew, hrefs, hcounts⟩ := (counts_as_number 0x7ffffffe).2 (by decide)
  exact ⟨c, hnew, hrefs, hcounts ops⟩

end SyncKit.ShareCount
