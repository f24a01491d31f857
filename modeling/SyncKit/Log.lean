namespace SyncKit

inductive Level
  | trace
  | debug
  | warn
  deriving DecidableEq

def Level.label : Level → String
  | .trace => "TRACE"
  | .debug => "DEBUG"
  | .warn => "WARN"

structure Note where
  level : Level
  text : String
  deriving DecidableEq

namespace Note

def trace (text : String) : Note := ⟨.trace, text⟩

def debug (text : String) : Note := ⟨.debug, text⟩

def warn (text : String) : Note := ⟨.warn, text⟩

def render (n : Note) : String := n.level.label ++ " " ++ n.text

/-- Calls that run side by side write their lines in no fixed order, so what they wrote is read as
a set: sorted, each line once. -/
def digest (notes : List Note) : List String :=
  (notes.map render).eraseDups.mergeSort (fun a b ↦ decide (a ≤ b))

end Note

end SyncKit
