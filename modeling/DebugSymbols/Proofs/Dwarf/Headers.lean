import DebugSymbols.Proofs.Dwarf.Placement

/-!
Which sections can be told apart into units.  Headers are read one after another (`Successive`)
up to the end of the section, and `HeadersFrom` says what comes of that: all headers, a malformed
one, or one more than there may be, whichever is met first (`readHeaders_eq_iff`).
-/

namespace DebugSymbols

namespace UnitHeader

/-- Headers that are read one after another, and where the last of them ends. -/
inductive Successive : List UnitHeader → Cursor → Cursor → Prop
  | nil (c : Cursor) : Successive [] c c
  | cons {h : UnitHeader} {rest : List UnitHeader} {c c' c'' : Cursor} :
      read.run c = some (h, c') → Successive rest c' c'' → Successive (h :: rest) c c''

variable {headers : List UnitHeader} {c c' : Cursor}

theorem Successive.stays (hs : Successive headers c c') :
    c'.data = c.data ∧ (c.position ≤ c.data.size → c'.position ≤ c.data.size) := by
  induction hs with
  | nil => exact ⟨rfl, id⟩
  | cons hread _ ih =>
    obtain ⟨hdata, hle, -⟩ := run_read hread
    rw [hdata] at ih
    exact ⟨ih.1, fun _ => ih.2 hle⟩

/-- Successive headers tile what they were read from. -/
theorem Successive.tiled (hs : Successive headers c c') :
    Tiled headers c.position c'.position := by
  induction hs with
  | nil => exact .nil _
  | cons hread _ ih => exact .cons (run_read hread).2.2 ih

/-- There is no header behind the end. -/
theorem position_lt_of_read {h : UnitHeader} (hread : read.run c = some (h, c')) :
    c.position < c.data.size := by
  obtain ⟨-, hle, hspans⟩ := run_read hread
  exact Nat.lt_of_lt_of_le hspans.nonempty hle

end UnitHeader

namespace DebugInfo

open UnitHeader

/-! ## What comes of reading headers -/

/-- What there is from a position on, where there may be `n` units. -/
inductive HeadersFrom (n : Nat) (c : Cursor) : Except Error (List UnitHeader) → Prop
  | complete {headers : List UnitHeader} {c' : Cursor} :
      Successive headers c c' → headers.length ≤ n → c'.data.size ≤ c'.position →
      HeadersFrom n c (.ok headers)
  | malformed {headers : List UnitHeader} {c' : Cursor} :
      Successive headers c c' → headers.length ≤ n → c'.position < c'.data.size →
      UnitHeader.read.run c' = none → HeadersFrom n c (.error .malformed)
  | unitLimitExceeded {headers : List UnitHeader} {h : UnitHeader} {c' c'' : Cursor} :
      Successive headers c c' → headers.length = n → UnitHeader.read.run c' = some (h, c'') →
      HeadersFrom n c (.error .unitLimitExceeded)

variable {n : Nat} {c c' : Cursor} {h : UnitHeader} {headers : List UnitHeader}

theorem readHeaders_end (hend : c.data.size ≤ c.position) : readHeaders n c = .ok [] := by
  unfold readHeaders
  rw [if_pos hend]

theorem readHeaders_malformed (hrest : c.position < c.data.size)
    (hread : UnitHeader.read.run c = none) : readHeaders n c = .error .malformed := by
  unfold readHeaders
  rw [if_neg (Nat.not_le.mpr hrest), hread]

theorem readHeaders_zero (hread : UnitHeader.read.run c = some (h, c')) :
    readHeaders 0 c = .error .unitLimitExceeded := by
  unfold readHeaders
  rw [if_neg (Nat.not_le.mpr (position_lt_of_read hread)), hread]

theorem readHeaders_succ (hread : UnitHeader.read.run c = some (h, c')) :
    readHeaders (n + 1) c = (h :: ·) <$> readHeaders n c' := by
  conv => lhs; unfold readHeaders
  rw [if_neg (Nat.not_le.mpr (position_lt_of_read hread)), hread]

/-- Headers that are read one after another are in front of all others. -/
theorem readHeaders_of_successive (hs : Successive headers c c') (hn : headers.length ≤ n) :
    readHeaders n c = (headers ++ ·) <$> readHeaders (n - headers.length) c' := by
  induction hs generalizing n with
  | nil => exact (id_map _).symm
  | cons hread _ ih =>
    obtain ⟨n, rfl⟩ := Nat.exists_eq_add_one_of_ne_zero (Nat.ne_of_gt (Nat.zero_lt_of_lt hn))
    rw [readHeaders_succ hread, ih (Nat.le_of_succ_le_succ hn), List.length_cons,
      Nat.add_sub_add_right]
    exact (comp_map _ _ _).symm

/-! ## All outcomes -/

theorem HeadersFrom.cons {r : Except Error (List UnitHeader)}
    (hread : UnitHeader.read.run c = some (h, c')) (hr : HeadersFrom n c' r) :
    HeadersFrom (n + 1) c ((h :: ·) <$> r) := by
  cases hr with
  | complete hs hn hend => exact .complete (.cons hread hs) (Nat.succ_le_succ hn) hend
  | malformed hs hn hrest hnone =>
    exact .malformed (.cons hread hs) (Nat.succ_le_succ hn) hrest hnone
  | unitLimitExceeded hs hn hmore =>
    exact .unitLimitExceeded (.cons hread hs) (congrArg (· + 1) hn) hmore

theorem headersFrom_readHeaders (n : Nat) (c : Cursor) : HeadersFrom n c (readHeaders n c) := by
  rcases Nat.lt_or_ge c.position c.data.size with hrest | hend
  · cases hread : UnitHeader.read.run c with
    | none =>
      rw [readHeaders_malformed hrest hread]
      exact .malformed (.nil c) (Nat.zero_le n) hrest hread
    | some p =>
      -- The number of units only matters once there is another header.
      cases n with
      | zero =>
        rw [readHeaders_zero hread]
        exact .unitLimitExceeded (.nil c) rfl hread
      | succ n =>
        rw [readHeaders_succ hread]
        exact (headersFrom_readHeaders n p.2).cons hread
  · rw [readHeaders_end hend]
    exact .complete (.nil c) (Nat.zero_le n) hend

/-- What is read is what there is, and a malformed header counts just if it is met before there
are too many. -/
theorem readHeaders_eq_iff {r : Except Error (List UnitHeader)} :
    readHeaders n c = r ↔ HeadersFrom n c r := by
  constructor
  · rintro rfl
    exact headersFrom_readHeaders n c
  · intro hr
    cases hr with
    | complete hs hn hend =>
      rw [readHeaders_of_successive hs hn, readHeaders_end hend]
      exact congrArg Except.ok (List.append_nil _)
    | malformed hs hn hrest hnone =>
      rw [readHeaders_of_successive hs hn, readHeaders_malformed hrest hnone]
      rfl
    | unitLimitExceeded hs hn hmore =>
      rw [readHeaders_of_successive hs (Nat.le_of_eq hn), hn, Nat.sub_self,
        readHeaders_zero hmore]
      rfl

/-- Where there may be one unit, a second header is one too many, whatever follows it. -/
example : readHeaders 1 ⟨⟨#[7, 0, 0, 0, 4, 0, 0, 0, 0, 0, 8,
    7, 0, 0, 0, 4, 0, 0, 0, 0, 0, 8, 1]⟩, 0⟩ = .error .unitLimitExceeded := by
  cbv

/-! ## Sections -/

theorem decode_eq_ok_iff {s : Sections} {info : DebugInfo} :
    decode s = .ok info ↔ ∃ headers, HeadersFrom maxUnits ⟨s.entries, 0⟩ (.ok headers) ∧
      info = ⟨(headers.map fun h => ⟨h, CompilationUnit.decode s h⟩).toArray⟩ := by
  simp only [← readHeaders_eq_iff]
  unfold decode
  cases hread : readHeaders maxUnits ⟨s.entries, 0⟩ with
  | error e => simp [bind, Except.bind]
  | ok headers => simp [bind, Except.bind, pure, Except.pure, eq_comm]

/-- Sections are told apart into units unless there is an error in the headers. -/
theorem decode_eq_error_iff {s : Sections} {e : Error} :
    decode s = .error e ↔ HeadersFrom maxUnits ⟨s.entries, 0⟩ (.error e) := by
  rw [← readHeaders_eq_iff]
  unfold decode
  cases readHeaders maxUnits ⟨s.entries, 0⟩ <;> simp [bind, Except.bind, pure, Except.pure]

theorem isEmpty_units_iff {s : Sections} {info : DebugInfo} (h : decode s = .ok info) :
    info.units.isEmpty = true ↔ HeadersFrom maxUnits ⟨s.entries, 0⟩ (.ok []) := by
  obtain ⟨headers, hheaders, rfl⟩ := decode_eq_ok_iff.mp h
  rw [← readHeaders_eq_iff] at hheaders ⊢
  rw [hheaders]
  simp

end DebugInfo

end DebugSymbols
