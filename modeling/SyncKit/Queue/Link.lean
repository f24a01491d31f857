import SyncKit.IdentCell

namespace SyncKit

abbrev Item := Nat

/-- The part of an element that queues thread through. An element is in at most one queue, whose
id is its owner. -/
structure Link where
  owner : IdentCell := {}
  prev : Option Item := none
  next : Option Item := none
  deriving DecidableEq

namespace Link

inductive State
  | unlinked
  | linked (id : Ident)
  deriving DecidableEq

def State.describe : State → String
  | .unlinked => "Unlinked"
  | .linked id => "Linked(QueueId(" ++ toString id.val ++ "))"

def state (l : Link) : State :=
  match l.owner.load with
  | none => .unlinked
  | some id => .linked id

def isLinked (l : Link) : Bool := l.state != .unlinked

def isLinkedTo (l : Link) (id : Ident) : Bool := l.owner.load == some id

def reset (l : Link) : Link := { owner := l.owner.store none, prev := none, next := none }

def describe (l : Link) : String := "QueueLink \x7b state: " ++ l.state.describe ++ " \x7d"

end Link

structure Links where
  cells : Array Link := #[]
  deriving DecidableEq

namespace Links

def size (ls : Links) : Nat := ls.cells.size

def get (ls : Links) (i : Item) : Link := ls.cells[i]?.getD {}

def add (ls : Links) : Links := ⟨ls.cells.push {}⟩

def update (ls : Links) (i : Item) (f : Link → Link) : Links :=
  if h : i < ls.cells.size then ⟨ls.cells.set i (f ls.cells[i])⟩ else ls

theorem get_eq_of_le {ls : Links} {i : Item} (h : ls.size ≤ i) : ls.get i = {} := by
  simp [get, Array.getElem?_eq_none h]

theorem get_update (ls : Links) (i j : Item) (f : Link → Link) :
    (ls.update i f).get j = if i = j ∧ j < ls.size then f (ls.get j) else ls.get j := by
  unfold update
  split
  · next h =>
    by_cases hj : i = j
    · subst hj
      simp [get, size, h]
    · simp [get, hj]
  · next h =>
    rw [if_neg]
    rintro ⟨rfl, hj⟩
    exact h hj

@[simp] theorem size_update (ls : Links) (i : Item) (f : Link → Link) :
    (ls.update i f).size = ls.size := by
  unfold update size
  split <;> simp

def chained (ls : Links) : Nat := ls.cells.countP (·.next.isSome)

theorem chained_update {ls : Links} {i : Item} (h : i < ls.size) (f : Link → Link) :
    (ls.update i f).chained + (if (ls.get i).next.isSome then 1 else 0) =
      ls.chained + (if (f (ls.get i)).next.isSome then 1 else 0) := by
  have hi : i < ls.cells.size := h
  have hget : ls.get i = ls.cells[i] := by simp [get, hi]
  have hpos : (if (ls.get i).next.isSome then 1 else 0) ≤ ls.chained := by
    split
    · next hs =>
      exact Array.countP_pos_iff.2 ⟨ls.cells[i], Array.getElem_mem hi, by rwa [← hget]⟩
    · omega
  simp only [update, hi, ↓reduceDIte]
  rw [hget] at hpos ⊢
  unfold chained at hpos ⊢
  rw [Array.countP_set]
  omega

theorem chained_update_of_next {ls : Links} (i : Item) {f : Link → Link}
    (hf : ∀ l, (f l).next = l.next) : (ls.update i f).chained = ls.chained := by
  by_cases h : i < ls.size
  · have := chained_update h f
    rw [hf] at this
    omega
  · simp [update, show ¬ i < ls.cells.size from h]

theorem chained_reset_le (ls : Links) (i : Item) :
    (ls.update i Link.reset).chained ≤ ls.chained := by
  by_cases h : i < ls.size
  · have := chained_update h Link.reset
    simp only [Link.reset, Option.isSome_none, Bool.false_eq_true, ↓reduceIte] at this
    change (ls.update i Link.reset).chained + _ = _ at this
    omega
  · simp [update, show ¬ i < ls.cells.size from h]

theorem chained_reset_lt {ls : Links} {i : Item} (hi : (ls.get i).next.isSome) :
    (ls.update i Link.reset).chained < ls.chained := by
  have h : i < ls.size := by
    by_cases h : i < ls.size
    · exact h
    · rw [get_eq_of_le (Nat.le_of_not_lt h)] at hi
      cases hi
  have := chained_update h Link.reset
  rw [if_pos hi] at this
  simp only [Link.reset, Option.isSome_none, Bool.false_eq_true, ↓reduceIte] at this
  change (ls.update i Link.reset).chained + 1 = _ at this
  omega

end Links

end SyncKit
