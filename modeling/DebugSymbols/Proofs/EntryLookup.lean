import DebugSymbols.Proofs.Dwarf.Construction
import DebugSymbols.Proofs.Import.Commands

/-!
Entries by their offsets.  Units and entries are looked up by binary search, one inside the other;
what they answer is what one gets by going over all units, and then over all entries of the one
unit that the offset lies in (`Locates`).

Main statement: `dieAt_eq_iff`.
-/

namespace DebugSymbols

namespace DebugInfo

/-! ## Units -/

variable {s : Sections} {info : DebugInfo} {offset : UInt64}

theorem contains_of_slotAt? {slot : Slot} (h : info.slotAt? offset = some slot) :
    slot.header.contains offset = true := by
  obtain ⟨k, -, h⟩ := Option.bind_eq_some_iff.mp h
  obtain ⟨other, -, h⟩ := Option.bind_eq_some_iff.mp h
  split at h
  · cases h
    assumption
  · cases h

/-- The binary search comes to the unit that contains the offset. -/
theorem slotAt?_of_contains (h : decode s = .ok info) (hsize : s.entries.size < UInt64.size)
    {slot : Slot} (hslot : slot ∈ info.units) (hcontains : slot.header.contains offset = true) :
    info.slotAt? offset = some slot := by
  obtain ⟨low, high, hspans, hhigh⟩ := spans_of_mem h hsize hslot
  obtain ⟨k, hk⟩ := Array.mem_iff_getElem?.mp hslot
  have hstart := hspans.start_toNat hhigh
  have hstop := hspans.stop_toNat hhigh
  simp only [UnitHeader.contains, UnitHeader.stop, Bool.and_eq_true, decide_eq_true_eq,
    UInt64.le_iff_toNat_le, UInt64.lt_iff_toNat_lt, hstart, hstop] at hcontains
  have hentries := hspans.entries
  have hoffset : slot.header.start + (offset.toNat - low).toUInt64 = offset := by
    rw [← UInt64.toNat_inj, hspans.offset_toNat hhigh (by omega)]
    omega
  rw [← hoffset]
  exact slotAt?_eq h hsize hk (by omega)

/-- The binary search finds the unit that is found by going over all of them. -/
theorem slotAt?_eq_find? (h : decode s = .ok info) (hsize : s.entries.size < UInt64.size)
    (offset : UInt64) :
    info.slotAt? offset = info.units.find? (·.header.contains offset) := by
  cases hfind : info.units.find? (·.header.contains offset) with
  | some slot =>
    have hcontains := Array.find?_some hfind
    exact slotAt?_of_contains h hsize (Array.mem_of_find?_eq_some hfind) hcontains
  | none =>
    refine Option.eq_none_iff_forall_ne_some.mpr fun slot hslot => ?_
    exact Array.find?_eq_none.mp hfind slot (mem_of_slotAt? hslot) (contains_of_slotAt? hslot)

/-! ## Entries -/

/-- What there is to be found at an offset, if all units and all of their entries are gone over. -/
inductive Locates (info : DebugInfo) (offset : UInt64) : Except Error Die → Prop
  | outside :
      (∀ slot ∈ info.units, ¬ slot.header.contains offset = true) →
      Locates info offset (.error (.notFound offset))
  | unreadable {slot : Slot} {e : Error} :
      info.units.find? (·.header.contains offset) = some slot → slot.content = .error e →
      Locates info offset (.error e)
  | entry {slot : Slot} {u : CompilationUnit} {k : Nat} {d : Die} :
      info.units.find? (·.header.contains offset) = some slot → slot.content = .ok u →
      u.die? k = some d → d.offset = offset → Locates info offset (.ok d)
  | between {slot : Slot} {u : CompilationUnit} :
      info.units.find? (·.header.contains offset) = some slot → slot.content = .ok u →
      (∀ k d, u.die? k = some d → d.offset ≠ offset) →
      Locates info offset (.error (.notFound offset))

theorem exists_locates (info : DebugInfo) (offset : UInt64) :
    ∃ answer, info.Locates offset answer := by
  cases hfind : info.units.find? (·.header.contains offset) with
  | none => exact ⟨_, .outside (Array.find?_eq_none.mp hfind)⟩
  | some slot =>
    cases hcontent : slot.content with
    | error e => exact ⟨_, .unreadable hfind hcontent⟩
    | ok u =>
      by_cases hentry : ∃ k d, u.die? k = some d ∧ d.offset = offset
      · obtain ⟨k, d, hd, hoffset⟩ := hentry
        exact ⟨_, .entry hfind hcontent hd hoffset⟩
      · refine ⟨_, .between hfind hcontent fun k d hd hoffset => ?_⟩
        exact hentry ⟨k, d, hd, hoffset⟩

/-- A readable unit answers with an entry, or with nothing else but that there is none. -/
theorem dieAt_of_content {slot : Slot} {u : CompilationUnit}
    (hslot : info.slotAt? offset = some slot) (hu : slot.content = .ok u) :
    info.dieAt offset = .error (.notFound offset) ∨
      ∃ d, info.dieAt offset = .ok d ∧ ∃ k, u.die? k = some d := by
  unfold dieAt
  rw [hslot]
  simp only [hu, bind, Except.bind]
  cases hfound : (u.tree.find? (offset - slot.header.start)).bind u.die? with
  | none => exact .inl rfl
  | some d =>
    obtain ⟨k, -, hd⟩ := Option.bind_eq_some_iff.mp hfound
    exact .inr ⟨d, rfl, k, hd⟩

theorem dieAt_of_locates (h : decode s = .ok info) (hsize : s.entries.size < UInt64.size)
    {answer : Except Error Die} (hanswer : info.Locates offset answer) :
    info.dieAt offset = answer := by
  have hfind := slotAt?_eq_find? h hsize offset
  cases hanswer with
  | outside hnone =>
    rw [Array.find?_eq_none.mpr hnone] at hfind
    unfold dieAt
    rw [hfind]
  | unreadable hslot hcontent =>
    rw [hslot] at hfind
    unfold dieAt
    rw [hfind]
    simp only [hcontent, bind, Except.bind]
  | entry hslot hcontent hd hoffset =>
    rw [← hoffset]
    have hmem := Array.mem_of_find?_eq_some hslot
    exact (indexed_of_decode h hsize).dieAt_of_holds (holds_of_die? hmem hcontent hd)
  | between hslot hcontent hnone =>
    rw [hslot] at hfind
    obtain hnotFound | ⟨d, hd, k, hk⟩ := dieAt_of_content hfind hcontent
    · exact hnotFound
    · exact absurd (offset_of_dieAt h hd) (hnone k d hk)

/-- The entries of a unit come in the order of their offsets. -/
theorem ascending_entries {header : UnitHeader} {low high : Nat} (hs : header.Spans low high)
    (hhigh : high < UInt64.size) (table : List Abbreviation) :
    (Entry.readAll header table).entries.toList.Pairwise fun e e' => e.offset < e'.offset := by
  obtain ⟨positions, hpairs, hbelow, hoffsets⟩ := Entry.ascending_readAll header table
  have hentries := hs.entries
  have hmap : ((Entry.readAll header table).entries.toList.map (·.offset)).Pairwise (· < ·) := by
    rw [hoffsets, List.pairwise_map]
    refine hpairs.imp_of_mem fun {p q} hp hq hlt => ?_
    have hp' := hbelow p hp
    have hq' := hbelow q hq
    rw [UInt64.lt_iff_toNat_lt, Nat.toUInt64_eq, Nat.toUInt64_eq,
      UInt64.toNat_ofNat_of_lt' (by omega), UInt64.toNat_ofNat_of_lt' (by omega)]
    omega
  exact List.pairwise_map.mp hmap

/-- The tree of a readable unit mirrors the entries that are read from it. -/
theorem mirrors_of_content (h : decode s = .ok info) (hsize : s.entries.size < UInt64.size)
    {slot : Slot} (hslot : slot ∈ info.units) {u : CompilationUnit} (hu : slot.content = .ok u) :
    ∃ table, u.tree.Mirrors (Entry.readAll slot.header table).entries.toList := by
  obtain ⟨-, hdecode⟩ := header_of_content h hslot hu
  obtain ⟨-, table, -, htree⟩ := CompilationUnit.decode_eq_ok hdecode
  obtain ⟨low, high, hspans, hhigh⟩ := spans_of_mem h hsize hslot
  exact ⟨table, DieTree.mirrors_ofEntries? htree (ascending_entries hspans hhigh table)⟩

end DebugInfo

open DebugInfo

/-- A look-up finds the unit that going over all units finds first, and answers what going over the
entries of that unit does: the entry that starts at the offset, as the walk from the root of the
unit meets it, the error of a unit that cannot be read, and otherwise that there is none. -/
theorem dieAt_eq_iff {s : Sections} {info : DebugInfo} (h : DebugInfo.decode s = .ok info)
    (hsize : s.entries.size < UInt64.size) (offset : UInt64) :
    info.slotAt? offset = info.units.find? (·.header.contains offset) ∧
    (∀ answer, info.dieAt offset = answer ↔ info.Locates offset answer) ∧
    (∀ d ∈ info.dies, d.offset = offset → info.dieAt offset = .ok d) ∧
    ∀ slot ∈ info.units, ∀ u, slot.content = .ok u →
      ∃ table, u.tree.Mirrors (Entry.readAll slot.header table).entries.toList := by
  refine ⟨slotAt?_eq_find? h hsize offset, fun answer => ⟨fun hanswer => ?_, fun hlocates => ?_⟩,
    fun d hd hoffset => ?_, fun slot hslot u hu => mirrors_of_content h hsize hslot hu⟩
  · obtain ⟨located, hlocated⟩ := exists_locates info offset
    rw [← hanswer, dieAt_of_locates h hsize hlocated]
    exact hlocated
  · exact dieAt_of_locates h hsize hlocates
  · obtain ⟨slot, hslot, u, hu, hmem⟩ := mem_dies.mp hd
    rw [← hoffset]
    exact (indexed_of_decode h hsize).dieAt_of_holds (holds_of_mem_dies hslot hu hmem)

/-- A unit that cannot be read, at offset 0, and behind it, at offset 12, one that holds a base type
`i`. -/
def partlyReadable : Sections := .inPlace
  ⟨#[1, 17, 1, 0, 0, 2, 36, 0, 3, 8, 0, 0, 0]⟩
  ⟨#[8, 0, 0, 0, 4, 0, 0, 0, 0, 0, 4, 127, 12, 0, 0, 0, 4, 0, 0, 0, 0, 0, 4, 1, 2, 105, 0, 0]⟩

/-- The look-up answers with the error of the first unit anywhere in it, with the base type where
that starts, and with nothing in the header of the second unit, in the middle of the base type and
behind the units. -/
theorem dieAt_eq_iff_partlyReadable :
    ∃ info d, DebugInfo.decode partlyReadable = .ok info ∧ d ∈ info.dies ∧ d.offset = 24 ∧
      d.tag = .baseType ∧ info.Locates 5 (.error .malformed) ∧ info.dieAt 24 = .ok d ∧
      info.Locates 24 (.ok d) ∧
      ∀ offset ∈ ([12, 25, 28, 100] : List UInt64), info.Locates offset (.error (.notFound offset)) := by
  have hsize : partlyReadable.entries.size < UInt64.size := by decide
  have hrun : (DebugInfo.decode partlyReadable).toOption.any (fun info =>
      (info.dieAt 24).toOption.any fun d =>
        decide (info.dies.map (·.offset) = [23, 24] ∧ d.offset = 24 ∧ d.tag = .baseType ∧
          (info.dieAt 5).map Die.offset = .error .malformed ∧
          [12, 25, 28, 100].all fun offset =>
            (info.dieAt offset).map Die.offset = .error (.notFound offset))) = true := by
    decide +kernel
  obtain ⟨info, hdecode, hrun⟩ := Except.of_any_toOption hrun
  obtain ⟨d, hd, hrun⟩ := Except.of_any_toOption hrun
  obtain ⟨hoffsets, hoffset, htag, hmalformed, hnotFound⟩ := of_decide_eq_true hrun
  have hfails {offset : UInt64} {e : DebugInfo.Error}
      (h : (info.dieAt offset).map Die.offset = .error e) : info.dieAt offset = .error e := by
    cases hat : info.dieAt offset with
    | ok found => simp [hat, Except.map] at h
    | error e' => simpa [hat, Except.map] using h
  have hlocates {offset : UInt64} {answer : Except DebugInfo.Error Die} :
      info.dieAt offset = answer ↔ info.Locates offset answer :=
    (dieAt_eq_iff hdecode hsize offset).2.1 answer
  have hwalk : d ∈ info.dies := by
    obtain ⟨met, hmet, heq⟩ : ∃ met ∈ info.dies, met.offset = 24 := by
      rw [← List.mem_map, hoffsets]
      decide
    have hsame := (dieAt_eq_iff hdecode hsize 24).2.2.1 met hmet heq
    rw [hd] at hsame
    cases hsame
    exact hmet
  refine ⟨info, d, hdecode, hwalk, hoffset, htag, ?_, hd, hlocates.mp hd, ?_⟩
  · exact hlocates.mp (hfails hmalformed)
  · intro offset hmem
    have hnone := of_decide_eq_true (List.all_eq_true.mp hnotFound offset hmem)
    exact hlocates.mp (hfails hnone)

end DebugSymbols
