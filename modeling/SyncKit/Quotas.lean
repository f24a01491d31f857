namespace SyncKit

/-- How many grants in a row a lock makes in one mode while callers of the other mode wait.
Zero asks for the default. -/
structure Quotas where
  read : UInt32 := 0
  write : UInt32 := 0
  deriving DecidableEq

namespace Quotas

def defaultRead : UInt32 := 4

def defaultWrite : UInt32 := 4

def effectiveRead (q : Quotas) : UInt32 := if q.read = 0 then defaultRead else q.read

def effectiveWrite (q : Quotas) : UInt32 := if q.write = 0 then defaultWrite else q.write

def isDefault (q : Quotas) : Bool := q == {}

def describe (q : Quotas) : String :=
  "RwLockQuotas \x7b read_quota: " ++ toString q.read ++ ", write_quota: " ++ toString q.write ++
    " \x7d"

theorem effectiveRead_ne_zero (q : Quotas) : q.effectiveRead ≠ 0 := by
  unfold effectiveRead
  split
  · decide
  · assumption

theorem effectiveWrite_ne_zero (q : Quotas) : q.effectiveWrite ≠ 0 := by
  unfold effectiveWrite
  split
  · decide
  · assumption

end Quotas

end SyncKit
