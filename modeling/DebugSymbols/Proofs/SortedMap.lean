import DebugSymbols.SortedMap
import Mathlib.Tactic.Common

/-!
The entries of a sorted map are what it answers, `last?_eq_some_iff` says which of them the last one
up to a bound is, and `countP_put` what an insertion does to the number of entries of a kind.
-/

namespace DebugSymbols.SortedMap

universe u v

variable {κ : Type u} {ν : Type v} [DecidableEq κ]

theorem mem_of_find_eq_some {l : List (κ × ν)} {k : κ} {v : ν} (h : find k l = some v) :
    (k, v) ∈ l := by
  induction l with
  | nil => cases h
  | cons e rest ih =>
    unfold find at h
    split at h
    · rename_i hk
      cases h
      exact List.mem_cons.mpr (.inl (Prod.ext hk rfl))
    · exact List.mem_cons_of_mem _ (ih h)

theorem find_eq_some_of_mem [LE κ] [LT κ] [Std.IsLinearOrder κ] [Std.LawfulOrderLT κ]
    {l : List (κ × ν)} (hl : l.Pairwise (fun a b => a.1 < b.1)) {k : κ}
    {v : ν} (h : (k, v) ∈ l) : find k l = some v := by
  induction l with
  | nil => cases h
  | cons e rest ih =>
    obtain ⟨he, hrest⟩ := List.pairwise_cons.mp hl
    unfold find
    rcases List.mem_cons.mp h with rfl | h
    · simp
    · have hlt : e.1 < k := he (k, v) h
      have hne : k ≠ e.1 := fun heq => Std.lt_irrefl (heq ▸ hlt)
      rw [if_neg hne]
      exact ih hrest h

theorem mem_toList [LE κ] [LT κ] [Std.IsLinearOrder κ] [Std.LawfulOrderLT κ]
    {m : SortedMap κ ν} {k : κ} {v : ν} :
    (k, v) ∈ m.toList ↔ m.get? k = some v :=
  ⟨find_eq_some_of_mem m.ascending, mem_of_find_eq_some⟩

section Last

variable [LE κ] [LT κ] [Std.IsLinearOrder κ] [Std.LawfulOrderLT κ]

omit [DecidableEq κ] in
/-- The last entry of an ascending list is the one with the greatest key. -/
theorem getLast?_eq_some_iff {l : List (κ × ν)} (hl : l.Pairwise (fun a b => a.1 < b.1))
    {e : κ × ν} : l.getLast? = some e ↔ e ∈ l ∧ ∀ d ∈ l, d.1 ≤ e.1 := by
  constructor
  · intro h
    obtain ⟨front, rfl⟩ := List.getLast?_eq_some_iff.mp h
    obtain ⟨-, -, hbelow⟩ := List.pairwise_append.mp hl
    refine ⟨by simp, fun d hd => ?_⟩
    rcases List.mem_append.mp hd with hd | hd
    · exact Std.le_of_lt (hbelow d hd e (by simp))
    · rw [List.mem_singleton.mp hd]
      exact Std.le_refl _
  · rintro ⟨he, hgreatest⟩
    have hlast := List.getLast?_eq_some_getLast (List.ne_nil_of_mem he)
    generalize l.getLast _ = d at hlast
    obtain ⟨front, rfl⟩ := List.getLast?_eq_some_iff.mp hlast
    obtain ⟨-, -, hbelow⟩ := List.pairwise_append.mp hl
    rcases List.mem_append.mp he with he | he
    · have hlt : e.1 < d.1 := hbelow e he d (by simp)
      exact absurd (hgreatest d (by simp)) (Std.not_le.mpr hlt)
    · rw [hlast, List.mem_singleton.mp he]

omit [DecidableEq κ] in
theorem mem_takeWhile_iff [DecidableLT κ] {l : List (κ × ν)}
    (hl : l.Pairwise (fun a b => a.1 < b.1)) {k : κ} {e : κ × ν} :
    (e ∈ l.takeWhile fun d => !decide (k < d.1)) ↔ e ∈ l ∧ e.1 ≤ k := by
  induction l with
  | nil => simp
  | cons d rest ih =>
    obtain ⟨hd, hrest⟩ := List.pairwise_cons.mp hl
    by_cases hk : k < d.1
    · -- all entries that follow are above the bound as well
      have habove : ∀ x ∈ d :: rest, k < x.1 := by
        intro x hx
        rcases List.mem_cons.mp hx with rfl | hx
        · exact hk
        · exact Std.lt_trans hk (hd x hx)
      rw [List.takeWhile_cons_of_neg (by simpa using hk)]
      simp only [List.not_mem_nil, false_iff, not_and]
      exact fun he => Std.not_le.mpr (habove e he)
    · rw [List.takeWhile_cons_of_pos (by simpa using hk), List.mem_cons, List.mem_cons, ih hrest,
        or_and_right]
      refine or_congr_left (iff_self_and.mpr ?_)
      rintro rfl
      exact Std.not_lt.mp hk

/-- The last entry up to a bound is the one with the greatest key that is not above it. -/
theorem last?_eq_some_iff [DecidableLT κ] {m : SortedMap κ ν} {k : κ} {e : κ × ν} :
    m.last? k = some e ↔ m.get? e.1 = some e.2 ∧ e.1 ≤ k ∧
      ∀ j v, m.get? j = some v → j ≤ k → j ≤ e.1 := by
  have hascending := m.ascending.sublist (List.takeWhile_sublist fun d => !decide (k < d.1))
  unfold last?
  rw [getLast?_eq_some_iff hascending, mem_takeWhile_iff m.ascending, and_assoc]
  refine and_congr mem_toList (and_congr_right fun _ => ?_)
  constructor
  · intro h j v hj hle
    exact h (j, v) ((mem_takeWhile_iff m.ascending).mpr ⟨mem_toList.mpr hj, hle⟩)
  · intro h d hd
    obtain ⟨hd, hle⟩ := (mem_takeWhile_iff m.ascending).mp hd
    exact h d.1 d.2 (mem_toList.mp hd) hle

end Last
/-- An entry that is put in its place counts, and the one that stood there no longer does. -/
theorem countP_put [LE κ] [LT κ] [DecidableLT κ] [Std.IsLinearOrder κ] [Std.LawfulOrderLT κ]
    (p : ν → Bool) (k : κ) (v : ν) {l : List (κ × ν)} (hl : l.Pairwise (fun a b => a.1 < b.1)) :
    (put k v l).countP (p ·.2) + (find k l).elim 0 (p · |>.toNat) =
      l.countP (p ·.2) + (p v).toNat := by
  induction l with
  | nil => cases hp : p v <;> simp [put, find, hp]
  | cons e rest ih =>
    obtain ⟨he, hrest⟩ := List.pairwise_cons.mp hl
    have hcons (l : List (κ × ν)) (e : κ × ν) :
        (e :: l).countP (p ·.2) = l.countP (p ·.2) + (p e.2).toNat := by
      rw [List.countP_cons]
      cases p e.2 <;> rfl
    unfold put find
    by_cases hlt : k < e.1
    · have hne : k ≠ e.1 := fun heq => Std.lt_irrefl (heq ▸ hlt)
      have hnone : find k rest = none :=
        find_eq_none_of_lt fun x hx => Std.lt_trans hlt (he x hx)
      rw [if_pos hlt, if_neg hne, hnone, hcons (e :: rest)]
      rfl
    · rw [if_neg hlt]
      by_cases heq : k = e.1
      · rw [if_pos heq, if_pos heq, hcons, hcons]
        exact Nat.add_right_comm _ _ _
      · rw [if_neg heq, if_neg heq, hcons, hcons]
        have := ih hrest
        omega

end DebugSymbols.SortedMap
