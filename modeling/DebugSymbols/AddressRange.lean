/-!
Half-open ranges of virtual addresses, and when one lies within another.
Main statement: `covers_iff` says what `covers` decides, and `mem_of_covers` that it is
inclusion for every range that holds an address.
-/

namespace DebugSymbols

/-- The addresses from `start` up to, but not including, `stop`. -/
structure AddressRange where
  start : UInt64
  stop : UInt64
deriving DecidableEq, Repr

namespace AddressRange

instance : Membership UInt64 AddressRange where
  mem r a := r.start ≤ a ∧ a < r.stop

theorem mem_iff {r : AddressRange} {a : UInt64} : a ∈ r ↔ r.start ≤ a ∧ a < r.stop := Iff.rfl

instance (r : AddressRange) (a : UInt64) : Decidable (a ∈ r) :=
  inferInstanceAs (Decidable (_ ∧ _))

def isEmpty (r : AddressRange) : Bool := decide (r.stop ≤ r.start)

/-- Nothing lies within an empty range, not even an empty one. -/
def covers (outer inner : AddressRange) : Bool :=
  !outer.isEmpty && decide (outer.start ≤ inner.start) && decide (inner.stop ≤ outer.stop)

theorem covers_iff {outer inner : AddressRange} :
    outer.covers inner = true ↔
      outer.start < outer.stop ∧ outer.start ≤ inner.start ∧ inner.stop ≤ outer.stop := by
  simp [covers, isEmpty, and_assoc]

theorem mem_of_covers {outer inner : AddressRange} {a : UInt64}
    (h : outer.covers inner = true) (ha : a ∈ inner) : a ∈ outer := by
  obtain ⟨_, h₁, h₂⟩ := covers_iff.1 h
  exact ⟨UInt64.le_trans h₁ ha.1, UInt64.lt_of_lt_of_le ha.2 h₂⟩

end AddressRange

end DebugSymbols
