namespace SyncKit

inductive Mode
  | read
  | write
  deriving DecidableEq

namespace Mode

def name : Mode → String
  | .read => "Read"
  | .write => "Write"

instance : LT Mode := ⟨fun a b ↦ a = .read ∧ b = .write⟩

instance (a b : Mode) : Decidable (a < b) := inferInstanceAs (Decidable (_ ∧ _))

def describe? : Option Mode → String
  | none => "None"
  | some m => "Some(" ++ m.name ++ ")"

end Mode

end SyncKit
