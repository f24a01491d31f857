import SyncKit.Overflow

namespace SyncKit.Spin

def ceiling : Int32 := 100

def base : Int32 := 10

/-- How often a call may retry before it goes to sleep. A very low estimate makes the budget
negative, and then the call does not retry at all. -/
def budget (estimate : Int32) : Int32 :=
  let doubled := Int32.ofIntClamp (2 * estimate.toInt)
  min (Int32.ofIntClamp (doubled.toInt + base.toInt)) ceiling

def next (estimate spent : Int32) : Except Overflow Int32 := do
  let gap ← Checked.subtract spent estimate
  Checked.add estimate (gap / 8)

def track (estimate : Int32) : List Int32 → List (Except Overflow Int32)
  | [] => []
  | spent :: later =>
    match next estimate spent with
    | .ok moved => .ok moved :: track moved later
    | .error e => .error e :: track estimate later

/-- Tries at most `n` times. The answer is the number of the try that succeeded, counted from
one, or `none` when all failed; a try that faults ends the phase. -/
def phase {σ ε : Type} (attempt : σ → Except ε Bool × σ) : Nat → Nat → σ →
    Except ε (Option Nat) × σ
  | 0, _, s => (.ok none, s)
  | n + 1, made, s =>
    match attempt s with
    | (.ok true, s) => (.ok (some (made + 1)), s)
    | (.ok false, s) => phase attempt n (made + 1) s
    | (.error e, s) => (.error e, s)

def tries (estimate : Int32) : Nat := (budget estimate).toInt.toNat

/-- What a call is taken to have spent: the try that succeeded, or one more than the budget for
going to sleep. -/
def spent (estimate : Int32) : Option Nat → Int32
  | some made => Int32.ofNat made
  | none => Int32.ofNat (tries estimate + 1)

structure Acquisition where
  tries : Nat
  sleeps : Nat
  estimate : Except Overflow Int32

def acquire (answers : Nat → Bool) (estimate : Int32) : Acquisition :=
  let attempt (made : Nat) : Except Overflow Bool × Nat := (.ok (answers (made + 1)), made + 1)
  match phase attempt (tries estimate) 0 0 with
  | (.ok won, made) => ⟨made, if won.isSome then 0 else 1, next estimate (spent estimate won)⟩
  | (.error e, made) => ⟨made, 0, .error e⟩

end SyncKit.Spin
