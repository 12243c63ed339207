import DebugSymbols.OffsetCache.Basic
import DebugSymbols.Proofs.SortedMap

/-!
What the offset cache answers after it was written to, and how many of its entries are of a kind
then (`tally`).
-/

namespace DebugSymbols

namespace Classification

def isType : Classification → Bool
  | type _ _ => true
  | _ => false

def isPending : Classification → Bool
  | type _ pending => pending
  | _ => false

def isPlaced : Classification → Bool
  | placed => true
  | _ => false

end Classification

namespace OffsetCache

theorem get?_clearPending (c : OffsetCache) (offset j : UInt64) :
    (c.clearPending offset).get? j =
      if j = offset then
        match c.get? offset with
        | some (.type o _) => some (.type o false)
        | other => other
      else c.get? j := by
  unfold clearPending type?
  by_cases hj : j = offset
  · subst hj
    cases h : c.get? j with
    | none => simp [h]
    | some cl => cases cl <;> simp_all [get?]
  · cases h : c.get? offset with
    | none => simp [hj]
    | some cl => cases cl <;> simp_all [get?, SortedMap.get?_insert]

theorem type?_eq_some {c : OffsetCache} {offset : UInt64} {o : Ordinal} {pending : Bool} :
    c.type? offset = some (o, pending) ↔ c.get? offset = some (.type o pending) := by
  unfold type?
  split
  · simp_all
  · rename_i hother
    exact ⟨nofun, fun h => absurd h (hother o pending)⟩

theorem type?_eq_none {c : OffsetCache} {offset : UInt64} :
    c.type? offset = none ↔ ∀ o pending, c.get? offset ≠ some (.type o pending) := by
  simp only [ne_eq, ← type?_eq_some, Option.eq_none_iff_forall_ne_some, Prod.forall]

theorem has_markUseless (c : OffsetCache) (offset : UInt64) :
    (c.markUseless offset).has offset = true := by
  simp [has, get?_markUseless]

theorem get?_markUseless_of_none {c : OffsetCache} {offset : UInt64}
    (h : c.get? offset = none) : (c.markUseless offset).get? offset = some .useless := by
  rw [get?_markUseless, if_pos rfl, h]
  rfl

theorem get?_markPlaced_of_none {c : OffsetCache} {offset : UInt64}
    (h : c.get? offset = none) : (c.markPlaced offset).get? offset = some .placed := by
  rw [get?_markPlaced, if_pos ⟨rfl, by rw [isOpen, h]⟩]

theorem has_markPlaced (c : OffsetCache) (offset : UInt64) :
    (c.markPlaced offset).has offset = true := by
  unfold has
  rw [get?_markPlaced]
  split
  · rfl
  · rename_i hclosed
    cases hget : c.get? offset with
    | none => simp [isOpen, hget] at hclosed
    | some cl => rfl

/-- Marking an entry useless changes no type. -/
theorem type?_markUseless (c : OffsetCache) (offset j : UInt64) :
    (c.markUseless offset).type? j = c.type? j := by
  unfold type?
  rw [get?_markUseless]
  by_cases hj : j = offset
  · subst hj
    cases c.get? j <;> simp
  · simp [hj]

/-- A placed variable was no type before, and is none now. -/
theorem type?_markPlaced (c : OffsetCache) (offset j : UInt64) :
    (c.markPlaced offset).type? j = c.type? j := by
  unfold type?
  rw [get?_markPlaced]
  by_cases h : j = offset ∧ c.isOpen offset = true
  · obtain ⟨rfl, hopen⟩ := h
    simp only [isOpen] at hopen
    split at hopen <;> simp_all [isOpen]
  · simp [h]

theorem isOpen_of_get? {c : OffsetCache} {offset : UInt64} (h : c.get? offset = none) :
    c.isOpen offset = true := by
  simp [isOpen, h]

theorem isOpen_of_has {c : OffsetCache} {offset : UInt64} (h : c.has offset = false) :
    c.isOpen offset = true :=
  isOpen_of_get? (Option.not_isSome_iff_eq_none.mp (Bool.eq_false_iff.mp h))

/-- An entry that can still be improved is no type. -/
theorem type?_of_isOpen {c : OffsetCache} {offset : UInt64} (h : c.isOpen offset = true) :
    c.type? offset = none := by
  unfold isOpen at h
  unfold type?
  split at h <;> simp_all

theorem markType_of_not_isOpen {c : OffsetCache} {offset : UInt64} (h : ¬c.isOpen offset = true)
    (o : Ordinal) (pending : Bool) : c.markType offset o pending = c :=
  if_neg h

theorem type?_markType {c : OffsetCache} {offset : UInt64} (h : c.isOpen offset = true)
    (o : Ordinal) (pending : Bool) (j : UInt64) :
    (c.markType offset o pending).type? j =
      if j = offset then some (o, pending) else c.type? j := by
  unfold type?
  rw [get?_markType]
  by_cases hj : j = offset <;> simp [hj, h]

theorem type?_clearPending (c : OffsetCache) (offset j : UInt64) :
    (c.clearPending offset).type? j =
      if j = offset then (c.type? offset).map fun (o, _) => (o, false) else c.type? j := by
  unfold type?
  rw [get?_clearPending]
  by_cases hj : j = offset
  · subst hj
    cases h : c.get? j with
    | none => simp
    | some cl => cases cl <;> simp
  · simp [hj]

theorem mem_pending {c : OffsetCache} {x : UInt64} :
    x ∈ c.pending ↔ ∃ o, c.type? x = some (o, true) := by
  unfold pending
  simp only [List.mem_filterMap, Prod.exists, type?_eq_some]
  constructor
  · rintro ⟨y, cl, hmem, heq⟩
    rw [SortedMap.mem_toList] at hmem
    split at heq
    · cases heq
      exact ⟨_, hmem⟩
    · cases heq
  · rintro ⟨o, hget⟩
    exact ⟨x, .type o true, SortedMap.mem_toList.mpr hget, rfl⟩

/-- The pending types are listed once each, by their offsets. -/
theorem pending_ascending (c : OffsetCache) : c.pending.Pairwise (· < ·) := by
  unfold pending
  apply c.classes.ascending.filterMap
  rintro ⟨a, cl⟩ ⟨b, cl'⟩ hlt x hx y hy
  dsimp only at hx hy
  split at hx
  · split at hy
    · cases hx
      cases hy
      exact hlt
    · cases hy
  · cases hx

theorem isPending_iff {c : OffsetCache} {x : UInt64} :
    c.isPending x = true ↔ ∃ o, c.type? x = some (o, true) := by
  unfold isPending
  cases c.type? x with
  | none => simp
  | some p => simp [Prod.ext_iff]

/-! ## Origins -/

theorem typeOffset?_markUseless (c : OffsetCache) (offset : UInt64) (o : Ordinal) :
    (c.markUseless offset).typeOffset? o = c.typeOffset? o := by
  unfold markUseless
  split <;> rfl

theorem typeOffset?_markPlaced (c : OffsetCache) (offset : UInt64) (o : Ordinal) :
    (c.markPlaced offset).typeOffset? o = c.typeOffset? o := by
  unfold markPlaced
  split <;> rfl

theorem typeOffset?_clearPending (c : OffsetCache) (offset : UInt64) (o : Ordinal) :
    (c.clearPending offset).typeOffset? o = c.typeOffset? o := by
  unfold clearPending
  split <;> rfl

/-- An ordinal comes from the entry that is marked with it first. -/
theorem typeOffset?_markType {c : OffsetCache} {offset : UInt64} (h : c.isOpen offset = true)
    (o : Ordinal) (pending : Bool) (o' : Ordinal) :
    (c.markType offset o pending).typeOffset? o' =
      if o' = o then some ((c.typeOffset? o).getD offset) else c.typeOffset? o' := by
  simp only [markType, h, if_true, typeOffset?]
  by_cases hc : c.origins.contains o.val = true
  · obtain ⟨x, hx⟩ := Option.isSome_iff_exists.mp hc
    by_cases ho : o' = o <;> simp [hc, ho, hx]
  · have hx : c.origins.get? o.val = none := Option.not_isSome_iff_eq_none.mp hc
    have hval : o'.val = o.val ↔ o' = o := by
      cases o
      cases o'
      simp
    by_cases ho : o' = o <;> simp [hc, ho, hx, hval, SortedMap.get?_insert]

/-! ## Counting -/

/-- The number of entries of a kind. -/
def tally (c : OffsetCache) (p : Classification → Bool) : Nat := c.classes.toList.countP (p ·.2)

variable {p : Classification → Bool}

/-- An entry that is written counts instead of what was there. -/
theorem tally_insert (p : Classification → Bool) (c : OffsetCache) (x : UInt64)
    (cl : Classification) (origins : SortedMap Nat UInt64) :
    tally ⟨c.classes.insert x cl, origins⟩ p + (c.get? x).elim 0 (p · |>.toNat) =
      c.tally p + (p cl).toNat :=
  SortedMap.countP_put p x cl c.classes.ascending

theorem tally_insert_of_isOpen {c : OffsetCache} {x : UInt64} (hopen : c.isOpen x = true)
    (hp : p .useless = false) (cl : Classification) (origins : SortedMap Nat UInt64) :
    tally ⟨c.classes.insert x cl, origins⟩ p = c.tally p + (p cl).toNat := by
  have h := tally_insert p c x cl origins
  unfold isOpen at hopen
  split at hopen
  · rename_i hget
    rwa [hget] at h
  · rename_i hget
    rw [hget, Option.elim_some, hp] at h
    exact h
  · cases hopen

theorem tally_markUseless (hp : p .useless = false) (c : OffsetCache) (x : UInt64) :
    (c.markUseless x).tally p = c.tally p := by
  unfold markUseless has
  cases hget : c.get? x with
  | some cl => rfl
  | none =>
    have h := tally_insert_of_isOpen (isOpen_of_get? hget) hp .useless c.origins
    rw [hp] at h
    exact h

theorem tally_markType {c : OffsetCache} {x : UInt64} (hopen : c.isOpen x = true)
    (hp : p .useless = false) (o : Ordinal) (pending : Bool) :
    (c.markType x o pending).tally p = c.tally p + (p (.type o pending)).toNat := by
  rw [markType, if_pos hopen]
  exact tally_insert_of_isOpen hopen hp _ _

theorem tally_markPlaced {c : OffsetCache} {x : UInt64} (hopen : c.isOpen x = true)
    (hp : p .useless = false) :
    (c.markPlaced x).tally p = c.tally p + (p .placed).toNat := by
  rw [markPlaced, if_pos hopen]
  exact tally_insert_of_isOpen hopen hp _ _

/-- A pending type counts as one that is not pending afterwards. -/
theorem tally_clearPending {c : OffsetCache} {x : UInt64} {o : Ordinal}
    (h : c.type? x = some (o, true)) (p : Classification → Bool) :
    (c.clearPending x).tally p + (p (.type o true)).toNat =
      c.tally p + (p (.type o false)).toNat := by
  have hinsert := tally_insert p c x (.type o false) c.origins
  rw [type?_eq_some.mp h] at hinsert
  unfold clearPending
  rw [h]
  exact hinsert

theorem length_pending (c : OffsetCache) :
    c.pending.length = c.tally Classification.isPending := by
  unfold pending tally
  rw [List.length_filterMap_eq_countP]
  apply List.countP_congr
  rintro ⟨x, cl⟩ -
  rcases cl with - | ⟨o, _ | _⟩ | - <;> simp [Classification.isPending]

end OffsetCache

end DebugSymbols
