import DebugSymbols.Search
import Mathlib.Tactic.Common

/-!
The binary search finds what a search from front to back would find: `border_eq` places the
border, and `lastAtMost?_eq` the last element whose key is not above a bound.
-/

namespace DebugSymbols

/-- A property that holds below `n` and not from there on has its border at `n`. -/
theorem border_eq (p : Nat → Bool) (low high n : Nat) (hlow : low ≤ n) (hhigh : n ≤ high)
    (below : ∀ i, low ≤ i → i < n → p i = true)
    (above : ∀ i, n ≤ i → i < high → p i = false) : border p low high = n := by
  fun_induction border p low high with
  | case1 low high hlt middle hp ih =>
    have hn : middle < n := by
      by_contra hge
      have hmid : p middle = false := above middle (by omega) (by omega)
      simp [hmid] at hp
    exact ih (by omega) hhigh (fun i hi => below i (by omega)) above
  | case2 low high hlt middle hp ih =>
    have hn : n ≤ middle := by
      by_contra hlt'
      exact hp (below middle (by omega) (by omega))
    exact ih hlow hn below (fun i hi hlt' => above i hi (by omega))
  | case3 low high hge => omega

/-- The element at `n` is found if its key is not above the bound, and all keys behind it
are. -/
theorem lastAtMost?_eq (key : α → UInt64) (elements : Array α) (bound : UInt64) (n : Nat) (a : α)
    (hn : elements[n]? = some a) (ha : key a ≤ bound)
    (below : ∀ i b, i < n → elements[i]? = some b → key b ≤ bound)
    (above : ∀ i b, n < i → elements[i]? = some b → ¬ key b ≤ bound) :
    lastAtMost? key elements bound = some n := by
  have hsize : n < elements.size := by
    by_contra hge
    simp [Array.getElem?_eq_none (Nat.le_of_not_lt hge)] at hn
  have hborder : border (fun i => (elements[i]?.map key).any (decide <| · ≤ bound)) 0
      elements.size = n + 1 := by
    apply border_eq _ _ _ _ (Nat.zero_le _) (by omega)
    · intro i _ hi
      have hget : elements[i]? = some elements[i] := Array.getElem?_eq_getElem (by omega)
      rcases Nat.lt_succ_iff_lt_or_eq.mp hi with hlt | rfl
      · simpa [hget] using below i _ hlt hget
      · simpa [hn] using ha
    · intro i hi hlt
      have hget : elements[i]? = some elements[i] := Array.getElem?_eq_getElem hlt
      simpa [hget] using above i _ (by omega) hget
  simp [lastAtMost?, hborder]

end DebugSymbols
