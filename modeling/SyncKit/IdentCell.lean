namespace SyncKit

/-- An identifier. Zero is none, so that a cell can say "nothing" with it. -/
structure Ident where
  val : UInt64
  ne_zero : val ≠ 0
  deriving DecidableEq

namespace Ident

def ofRaw? (raw : UInt64) : Option Ident := if h : raw ≠ 0 then some ⟨raw, h⟩ else none

def raw : Option Ident → UInt64
  | none => 0
  | some id => id.val

@[simp] theorem ofRaw?_raw (id : Option Ident) : ofRaw? (raw id) = id := by
  cases id with
  | none => rfl
  | some id => simp [ofRaw?, raw, id.ne_zero]

@[simp] theorem raw_ofRaw? (n : UInt64) : raw (ofRaw? n) = n := by
  unfold ofRaw?
  split
  · rfl
  · next h => exact (Decidable.not_not.1 h).symm

end Ident

structure IdentCell where
  raw : UInt64 := 0
  deriving DecidableEq

namespace IdentCell

def new (value : Option Ident) : IdentCell := ⟨Ident.raw value⟩

def load (c : IdentCell) : Option Ident := Ident.ofRaw? c.raw

def store (value : Option Ident) (_ : IdentCell) : IdentCell := new value

def compareExchange (expected value : Option Ident) (c : IdentCell) :
    Except (Option Ident) (Option Ident) × IdentCell :=
  if c.raw = Ident.raw expected then (.ok c.load, new value) else (.error c.load, c)

def describe (c : IdentCell) : String :=
  "OptionalAtomicU64 \x7b inner: " ++ toString c.raw ++ " \x7d"

@[simp] theorem load_new (value : Option Ident) : (new value).load = value :=
  Ident.ofRaw?_raw value

@[simp] theorem load_store (value : Option Ident) (c : IdentCell) :
    (c.store value).load = value := load_new value

theorem raw_eq_iff (c : IdentCell) (value : Option Ident) :
    c.raw = Ident.raw value ↔ c.load = value := by
  constructor
  · intro h
    rw [load, h, Ident.ofRaw?_raw]
  · rintro rfl
    exact (Ident.raw_ofRaw? c.raw).symm

inductive Operation
  | load
  | store (value : Option Ident)
  | compareExchange (expected value : Option Ident)
  deriving DecidableEq

inductive Answer
  | done
  | value (found : Option Ident)
  | exchanged (found : Option Ident)
  | kept (found : Option Ident)
  deriving DecidableEq

def perform (c : IdentCell) : Operation → Answer × IdentCell
  | .load => (.value c.load, c)
  | .store value => (.done, c.store value)
  | .compareExchange expected value =>
    match c.compareExchange expected value with
    | (.ok found, c) => (.exchanged found, c)
    | (.error found, c) => (.kept found, c)

def run : List Operation → IdentCell → List (Answer × IdentCell)
  | [], _ => []
  | op :: later, c => c.perform op :: run later (c.perform op).2

end IdentCell

end SyncKit
