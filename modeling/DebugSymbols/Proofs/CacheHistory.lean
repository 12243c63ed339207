import DebugSymbols.Proofs.CachePersistence

/-!
Offset caches over time.  A cache is what a sequence of edits made of the empty one
(`ofEdits`), and it tells about that sequence: which entries became types, and which entry was
the first of each ordinal (`Records`).  Later edits only improve what is there (`Improves`).
Main statement: `records_improves`.
-/

namespace DebugSymbols.OffsetCache

/-- What can be done to a cache. -/
inductive Edit where
  | markUseless (offset : UInt64)
  | markType (offset : UInt64) (ordinal : Ordinal) (pending : Bool)
  | markPlaced (offset : UInt64)
  | clearPending (offset : UInt64)
deriving DecidableEq, Repr

def edit (c : OffsetCache) : Edit → OffsetCache
  | .markUseless offset => c.markUseless offset
  | .markType offset ordinal pending => c.markType offset ordinal pending
  | .markPlaced offset => c.markPlaced offset
  | .clearPending offset => c.clearPending offset

/-- The cache that a sequence of edits makes of the empty one. -/
def ofEdits (edits : List Edit) : OffsetCache := edits.foldl edit empty

theorem ofEdits_append (edits later : List Edit) :
    ofEdits (edits ++ later) = later.foldl edit (ofEdits edits) :=
  List.foldl_append

theorem isOpen_iff {c : OffsetCache} {x : UInt64} :
    c.isOpen x = true ↔ c.get? x = none ∨ c.get? x = some .useless := by
  unfold isOpen
  split <;> simp_all

/-! ## Classes -/

/-- What may become of the class of an entry: a missing one and a useless one are improved, a
type keeps its ordinal and is pending no more than it was. -/
inductive Becomes : Option Classification → Option Classification → Prop
  | refl (cl : Option Classification) : Becomes cl cl
  | dismissed : Becomes none (some .useless)
  | typed {cl : Option Classification} {o : Ordinal} {pending : Bool} :
      cl = none ∨ cl = some .useless → Becomes cl (some (.type o pending))
  | placed {cl : Option Classification} :
      cl = none ∨ cl = some .useless → Becomes cl (some .placed)
  | resolved {o : Ordinal} : Becomes (some (.type o true)) (some (.type o false))

theorem Becomes.trans {a b c : Option Classification} (h : Becomes a b) (h' : Becomes b c) :
    Becomes a c := by
  cases h' with
  | refl => exact h
  | dismissed =>
    cases h
    exact .dismissed
  | typed hopen =>
    cases h with
    | refl => exact .typed hopen
    | dismissed => exact .typed (.inl rfl)
    | typed => simp at hopen
    | placed => simp at hopen
    | resolved => simp at hopen
  | placed hopen =>
    cases h with
    | refl => exact .placed hopen
    | dismissed => exact .placed (.inl rfl)
    | typed => simp at hopen
    | placed => simp at hopen
    | resolved => simp at hopen
  | resolved =>
    cases h with
    | refl => exact .resolved
    | typed hopen => exact .typed hopen

/-- One edit improves an entry by one step at most. -/
theorem becomes_edit (c : OffsetCache) (e : Edit) (x : UInt64) :
    Becomes (c.get? x) ((c.edit e).get? x) := by
  cases e with
  | markUseless offset =>
    simp only [edit, get?_markUseless]
    split
    · subst x
      cases c.get? offset with
      | none => exact .dismissed
      | some cl => exact .refl _
    · exact .refl _
  | markType offset o pending =>
    simp only [edit, get?_markType]
    split
    · rename_i h
      exact .typed (isOpen_iff.mp (h.1 ▸ h.2))
    · exact .refl _
  | markPlaced offset =>
    simp only [edit, get?_markPlaced]
    split
    · rename_i h
      exact .placed (isOpen_iff.mp (h.1 ▸ h.2))
    · exact .refl _
  | clearPending offset =>
    simp only [edit, get?_clearPending]
    split
    · subst x
      split
      · rename_i o pending heq
        rw [heq]
        cases pending with
        | true => exact .resolved
        | false => exact .refl _
      · exact .refl _
    · exact .refl _

/-- A type stays a type of its ordinal, and is resolved by nothing but the edit for that. -/
theorem get?_edit_of_type {c : OffsetCache} {x : UInt64} {o : Ordinal} {pending : Bool}
    (h : c.get? x = some (.type o pending)) (e : Edit) :
    (c.edit e).get? x = some (.type o (pending && decide (e ≠ .clearPending x))) := by
  have hopen : c.isOpen x = false := by simp [isOpen, h]
  cases e with
  | markUseless offset =>
    simp only [edit, get?_markUseless]
    by_cases hx : x = offset
    · simp [← hx, h]
    · simp [hx, h]
  | markType offset o' pending' =>
    simp only [edit, get?_markType]
    by_cases hx : x = offset
    · simp [← hx, hopen, h]
    · simp [hx, h]
  | markPlaced offset =>
    simp only [edit, get?_markPlaced]
    by_cases hx : x = offset
    · simp [← hx, hopen, h]
    · simp [hx, h]
  | clearPending offset =>
    simp only [edit, get?_clearPending]
    by_cases hx : x = offset
    · simp [← hx, h]
    · simp [hx, h, Ne.symm hx]

/-! ## Origins -/

/-- An ordinal that has an origin keeps it, and one that has none gets it from the next type. -/
theorem typeOffset?_edit {c : OffsetCache} {e : Edit} {o : Ordinal} {x : UInt64} :
    (c.edit e).typeOffset? o = some x ↔
      c.typeOffset? o = some x ∨
        c.typeOffset? o = none ∧ c.isOpen x = true ∧ ∃ pending, e = .markType x o pending := by
  cases e with
  | markUseless offset => simp [edit, typeOffset?_markUseless]
  | markPlaced offset => simp [edit, typeOffset?_markPlaced]
  | clearPending offset => simp [edit, typeOffset?_clearPending]
  | markType offset o' pending =>
    simp only [edit, Edit.markType.injEq]
    by_cases hopen : c.isOpen offset = true
    · rw [typeOffset?_markType hopen]
      by_cases ho : o = o'
      · subst ho
        cases hc : c.typeOffset? o with
        | some y => simp
        | none =>
          simp only [if_true, Option.getD_none, Option.some.injEq]
          constructor
          · rintro rfl
            simp [hopen]
          · simp
      · simp [ho, Ne.symm ho]
    · rw [markType_of_not_isOpen hopen]
      constructor
      · exact .inl
      · rintro (h | ⟨-, hx, -, rfl, -⟩)
        · exact h
        · exact absurd hx hopen

/-- The edit at a place of the sequence marks the entry as a type of the ordinal, and is
accepted. -/
def Registers (edits : List Edit) (k : Nat) (o : Ordinal) (x : UInt64) : Prop :=
  (ofEdits (edits.take k)).isOpen x = true ∧ ∃ pending, edits[k]? = some (.markType x o pending)

/-- Of all entries that became types of the ordinal, this one was the first. -/
def RegistersFirst (edits : List Edit) (o : Ordinal) (x : UInt64) : Prop :=
  ∃ k, Registers edits k o x ∧ ∀ j < k, ∀ y, ¬Registers edits j o y

variable {edits : List Edit} {o : Ordinal} {x : UInt64}

theorem typeOffset?_take_succ (n : Nat) :
    (ofEdits (edits.take (n + 1))).typeOffset? o = some x ↔
      (ofEdits (edits.take n)).typeOffset? o = some x ∨
        (ofEdits (edits.take n)).typeOffset? o = none ∧ Registers edits n o x := by
  unfold Registers
  rw [List.take_add_one, ofEdits_append]
  cases edits[n]? with
  | none => simp
  | some e => simp [typeOffset?_edit]

theorem typeOffset?_take_eq_none (n : Nat) :
    (ofEdits (edits.take n)).typeOffset? o = none ↔ ∀ k < n, ∀ y, ¬Registers edits k o y := by
  induction n with
  | zero =>
    constructor
    · intro _ k hk
      exact absurd hk (Nat.not_lt_zero k)
    · intro _
      rfl
  | succ n ih =>
    rw [Option.eq_none_iff_forall_ne_some]
    simp only [ne_eq, typeOffset?_take_succ, not_or, not_and]
    constructor
    · intro h k hk
      have hnone : (ofEdits (edits.take n)).typeOffset? o = none :=
        Option.eq_none_iff_forall_ne_some.mpr fun y => (h y).1
      rcases Nat.lt_succ_iff_lt_or_eq.mp hk with hk | rfl
      · exact ih.mp hnone k hk
      · exact fun y => (h y).2 hnone
    · intro h y
      have hnone := ih.mpr fun k hk => h k (Nat.lt_succ_of_lt hk)
      rw [hnone]
      exact ⟨nofun, fun _ => h n (Nat.lt_succ_self n) y⟩

theorem typeOffset?_take (n : Nat) :
    (ofEdits (edits.take n)).typeOffset? o = some x ↔
      ∃ k < n, Registers edits k o x ∧ ∀ j < k, ∀ y, ¬Registers edits j o y := by
  induction n with
  | zero =>
    constructor
    · intro h
      cases h
    · rintro ⟨k, hk, -⟩
      exact absurd hk (Nat.not_lt_zero k)
  | succ n ih =>
    rw [typeOffset?_take_succ, ih, typeOffset?_take_eq_none]
    constructor
    · rintro (⟨k, hk, hfirst⟩ | ⟨hnone, hx⟩)
      · exact ⟨k, Nat.lt_succ_of_lt hk, hfirst⟩
      · exact ⟨n, Nat.lt_succ_self n, hx, hnone⟩
    · rintro ⟨k, hk, hx, hnone⟩
      rcases Nat.lt_succ_iff_lt_or_eq.mp hk with hk | rfl
      · exact .inl ⟨k, hk, hx, hnone⟩
      · exact .inr ⟨hnone, hx⟩

/-- No edit beyond the end of the sequence registers anything. -/
theorem Registers.lt {k : Nat} (h : Registers edits k o x) : k < edits.length := by
  obtain ⟨-, pending, hk⟩ := h
  exact (List.getElem?_eq_some_iff.mp hk).1

theorem typeOffset?_ofEdits (edits : List Edit) (o : Ordinal) (x : UInt64) :
    (ofEdits edits).typeOffset? o = some x ↔ RegistersFirst edits o x := by
  have htake : (ofEdits (edits.take edits.length)).typeOffset? o = some x ↔ _ :=
    typeOffset?_take edits.length
  rw [List.take_length] at htake
  rw [htake]
  constructor
  · rintro ⟨k, -, hfirst⟩
    exact ⟨k, hfirst⟩
  · rintro ⟨k, hx, hnone⟩
    exact ⟨k, hx.lt, hx, hnone⟩

theorem consistent_edit {c : OffsetCache} (h : c.Consistent) (e : Edit) :
    (c.edit e).Consistent := by
  cases e with
  | markUseless offset => exact h.markUseless offset
  | markType offset o pending => exact h.markType offset o pending
  | markPlaced offset => exact h.markPlaced offset
  | clearPending offset => exact h.clearPending offset

theorem consistent_ofEdits (edits : List Edit) : (ofEdits edits).Consistent :=
  List.foldlRecOn edits edit Consistent.empty fun _ hc e _ => consistent_edit hc e

/-! ## Sequences of edits -/

/-- What a cache tells about the edits that made it. -/
structure Records (edits : List Edit) (c : OffsetCache) : Prop where
  /-- An ordinal has an origin if and only if some entry is a type of it. -/
  indexed : ∀ o, (∃ x, c.typeOffset? o = some x) ↔
    ∃ x pending, c.get? x = some (.type o pending)
  first : ∀ o x, c.typeOffset? o = some x ↔ RegistersFirst edits o x
  pending : ∀ x, x ∈ c.pending ↔ ∃ o, c.get? x = some (.type o true)
  ascending : c.pending.Pairwise (· < ·)

/-- What becomes of a cache by later edits. -/
structure Improves (later : List Edit) (c d : OffsetCache) : Prop where
  becomes : ∀ x, Becomes (c.get? x) (d.get? x)
  /-- A pending type is resolved by the edit for that, and by no other. -/
  resolved : ∀ x o pending, c.get? x = some (.type o pending) →
    d.get? x = some (.type o (pending && decide (.clearPending x ∉ later)))
  origin : ∀ o x, c.typeOffset? o = some x → d.typeOffset? o = some x

theorem records_ofEdits (edits : List Edit) : Records edits (ofEdits edits) := by
  have hc := consistent_ofEdits edits
  constructor
  · intro o
    simp only [← type?_eq_some]
    constructor
    · rintro ⟨x, hx⟩
      exact ⟨x, hc.origin hx⟩
    · rintro ⟨x, pending, hx⟩
      exact hc.indexed hx
  · exact typeOffset?_ofEdits edits
  · intro x
    simp only [mem_pending, type?_eq_some]
  · exact pending_ascending _

theorem improves_foldl (later : List Edit) (c : OffsetCache) :
    Improves later c (later.foldl edit c) := by
  induction later generalizing c with
  | nil =>
    constructor
    · intro x
      exact .refl _
    · intro x o pending h
      simpa using h
    · intro o x h
      exact h
  | cons e later ih =>
    have hlater := ih (c.edit e)
    constructor
    · intro x
      exact (becomes_edit c e x).trans (hlater.becomes x)
    · intro x o pending h
      have hx := hlater.resolved x o _ (get?_edit_of_type h e)
      simpa [Bool.and_assoc, eq_comm] using hx
    · intro o x h
      exact hlater.origin o x (typeOffset?_edit.mpr (.inl h))

/-- A cache tells which edits made it, and whatever is done to it afterwards improves it. -/
theorem records_improves (edits later : List Edit) :
    Records edits (ofEdits edits) ∧
      Improves later (ofEdits edits) (ofEdits (edits ++ later)) := by
  rw [ofEdits_append]
  exact ⟨records_ofEdits edits, improves_foldl later _⟩

end DebugSymbols.OffsetCache
