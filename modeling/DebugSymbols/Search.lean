/-!
Binary search for the border of a property that holds up to some place and not from there on.
-/

namespace DebugSymbols

/-- The least number from `low` to `high` at which `p` does not hold, or `high`. -/
def border (p : Nat → Bool) (low high : Nat) : Nat :=
  if h : low < high then
    let middle := (low + high) / 2
    if p middle then border p (middle + 1) high else border p low middle
  else low
termination_by high - low

/-- The last element whose key is not above the given one, if keys ascend. -/
def lastAtMost? (key : α → UInt64) (elements : Array α) (bound : UInt64) : Option Nat :=
  match border (fun i => (elements[i]?.map key).any (decide <| · ≤ bound)) 0 elements.size with
  | 0 => none
  | n + 1 => some n

end DebugSymbols
