import DebugSymbols.Proofs.Dwarf.Headers
import DebugSymbols.Proofs.Search

/-!
Entries are found where they start.  `Indexed` says that of all entries of a program, and
`indexed_of_decode` that it holds of what is read from sections of less than 2 ^ 64 bytes.
-/

namespace DebugSymbols

/-! ## Units -/

namespace UnitHeader

/-- A unit of a section lies behind those before it and in front of those after it. -/
theorem Tiled.at {headers : List UnitHeader} {low high k : Nat} {h : UnitHeader}
    (t : Tiled headers low high) (hk : headers[k]? = some h) :
    ∃ a b, h.Spans a b ∧ low ≤ a ∧ b ≤ high ∧
      (∀ j h', j < k → headers[j]? = some h' → ∃ a' b', h'.Spans a' b' ∧ b' ≤ a) ∧
      (∀ j h', k < j → headers[j]? = some h' → ∃ a' b', h'.Spans a' b' ∧ b ≤ a' ∧ b' ≤ high) := by
  induction t generalizing k h with
  | nil => simp at hk
  | @cons first rest low middle high hspans htiled ih =>
    cases k with
    | zero =>
      simp only [List.getElem?_cons_zero, Option.some.injEq] at hk
      subst hk
      refine ⟨low, middle, hspans, Nat.le_refl _, htiled.le, fun j h' hj => ?_, ?_⟩
      · exact absurd hj (Nat.not_lt_zero _)
      · intro j h' hj hget
        obtain ⟨j, rfl⟩ := Nat.exists_eq_succ_of_ne_zero (Nat.ne_of_gt hj)
        rw [List.getElem?_cons_succ] at hget
        obtain ⟨a, b, hs, ha, hb, -, -⟩ := ih hget
        exact ⟨a, b, hs, ha, hb⟩
    | succ k =>
      rw [List.getElem?_cons_succ] at hk
      obtain ⟨a, b, hs, ha, hb, before, behind⟩ := ih hk
      refine ⟨a, b, hs, Nat.le_trans (Nat.le_of_lt hspans.nonempty) ha, hb, ?_, ?_⟩
      · intro j h' hj hget
        cases j with
        | zero =>
          simp only [List.getElem?_cons_zero, Option.some.injEq] at hget
          subst hget
          exact ⟨low, middle, hspans, ha⟩
        | succ j =>
          exact before j h' (by omega) (by simpa using hget)
      · intro j h' hj hget
        obtain ⟨j, rfl⟩ := Nat.exists_eq_succ_of_ne_zero (Nat.ne_of_gt (Nat.zero_lt_of_lt hj))
        exact behind j h' (by omega) (by simpa using hget)

theorem Spans.start_toNat {h : UnitHeader} {low high : Nat} (hs : h.Spans low high)
    (hhigh : high < UInt64.size) : h.start.toNat = low := by
  have := hs.nonempty
  rw [hs.start, Nat.toUInt64_eq, UInt64.toNat_ofNat_of_lt' (by omega)]

theorem Spans.stop_toNat {h : UnitHeader} {low high : Nat} (hs : h.Spans low high)
    (hhigh : high < UInt64.size) : (h.start + h.size).toNat = high := by
  have := hs.nonempty
  have hsize : h.size.toNat = high - low := by
    rw [hs.size, Nat.toUInt64_eq, UInt64.toNat_ofNat_of_lt' (by omega)]
  rw [UInt64.toNat_add, hs.start_toNat hhigh, hsize, Nat.mod_eq_of_lt]
  · omega
  · change low + (high - low) < UInt64.size
    omega

/-- An offset into the unit is one into the section. -/
theorem Spans.offset_toNat {h : UnitHeader} {low high position : Nat} (hs : h.Spans low high)
    (hhigh : high < UInt64.size) (hposition : position < high - low) :
    (h.start + position.toUInt64).toNat = low + position := by
  have hlt : low + position < UInt64.size := by omega
  rw [UInt64.toNat_add, hs.start_toNat hhigh, Nat.toUInt64_eq,
    UInt64.toNat_ofNat_of_lt' (by omega), Nat.mod_eq_of_lt hlt]

end UnitHeader

namespace DebugInfo

/-- What is read from sections has the slots of its headers. -/
theorem units_of_decode {s : Sections} {info : DebugInfo} (h : decode s = .ok info) :
    ∃ headers high, high ≤ s.entries.size ∧ UnitHeader.Tiled headers 0 high ∧
      info.units.toList = headers.map fun h => ⟨h, CompilationUnit.decode s h⟩ := by
  obtain ⟨headers, hheaders, rfl⟩ := decode_eq_ok_iff.mp h
  cases hheaders with
  | complete hs =>
    obtain ⟨-, hhigh⟩ := hs.stays
    exact ⟨headers, _, hhigh (Nat.zero_le _), hs.tiled, by simp⟩

/-- A unit has its place in the section. -/
theorem spans_of_mem {s : Sections} {info : DebugInfo} (h : decode s = .ok info)
    (hsize : s.entries.size < UInt64.size) {slot : Slot} (hslot : slot ∈ info.units) :
    ∃ low high, slot.header.Spans low high ∧ high < UInt64.size := by
  obtain ⟨headers, high, hhigh, ht, hunits⟩ := units_of_decode h
  have hmem : slot ∈ info.units.toList := by simpa using hslot
  rw [hunits] at hmem
  obtain ⟨header, hheader, rfl⟩ := List.mem_map.mp hmem
  obtain ⟨k, hk⟩ := List.mem_iff_getElem?.mp hheader
  obtain ⟨a, b, hspans, -, hb, -⟩ := ht.at hk
  exact ⟨a, b, hspans, by omega⟩

theorem slotAt?_eq {s : Sections} {info : DebugInfo} (h : decode s = .ok info)
    (hsize : s.entries.size < UInt64.size) {k : Nat} {slot : Slot}
    (hk : info.units[k]? = some slot) {position : Nat}
    (hposition : position < slot.header.entriesStart + slot.header.entries.size) :
    info.slotAt? (slot.header.start + position.toUInt64) = some slot := by
  obtain ⟨headers, high, hhigh, ht, hunits⟩ := units_of_decode h
  have hget (j : Nat) : info.units[j]? =
      headers[j]?.map fun h => ⟨h, CompilationUnit.decode s h⟩ := by
    rw [← Array.getElem?_toList, hunits, List.getElem?_map]
  rw [hget] at hk
  obtain ⟨header, hheader, rfl⟩ := Option.map_eq_some_iff.mp hk
  obtain ⟨a, b, hspans, -, hb, before, behind⟩ := ht.at hheader
  have hbound : b < UInt64.size := by omega
  replace hposition : position < b - a := hspans.entries ▸ hposition
  have hstart := hspans.start_toNat hbound
  have hsum := hspans.offset_toNat hbound hposition
  have hstop := hspans.stop_toNat hbound
  change info.slotAt? (header.start + position.toUInt64) = _
  have hlast : lastAtMost? (·.header.start) info.units (header.start + position.toUInt64) =
      some k := by
    apply lastAtMost?_eq _ _ _ _ ⟨header, CompilationUnit.decode s header⟩
    · rw [hget, hheader]
      rfl
    · rw [UInt64.le_iff_toNat_le, hsum, hstart]
      omega
    · intro j other hj hother
      rw [hget] at hother
      obtain ⟨earlier, hearlier, rfl⟩ := Option.map_eq_some_iff.mp hother
      obtain ⟨a', b', hspans', hle⟩ := before j earlier hj hearlier
      have := hspans'.nonempty
      rw [UInt64.le_iff_toNat_le, hsum, hspans'.start_toNat (by omega)]
      omega
    · intro j other hj hother
      rw [hget] at hother
      obtain ⟨later, hlater, rfl⟩ := Option.map_eq_some_iff.mp hother
      obtain ⟨a', b', hspans', hle, hb'⟩ := behind j later hj hlater
      rw [UInt64.le_iff_toNat_le, hsum, hspans'.start_toNat (by omega)]
      omega
  have hcontains : header.contains (header.start + position.toUInt64) = true := by
    simp only [UnitHeader.contains, UnitHeader.stop, Bool.and_eq_true, decide_eq_true_eq,
      UInt64.le_iff_toNat_le, UInt64.lt_iff_toNat_lt, hsum, hstart, hstop]
    omega
  simp [slotAt?, hlast, hget, hheader, hcontains]

end DebugInfo

/-! ## Entries -/

/-- The node at which an ascending list of positions has an entry is found by its offset. -/
theorem DieTree.find?_eq {t : DieTree} {positions : List Nat} {first k : Nat} {node : Node}
    (hnodes : t.nodes.toList.map (·.offset) = positions.map fun p => (first + p).toUInt64)
    (hpairs : positions.Pairwise (· < ·)) (hsmall : ∀ p ∈ positions, first + p < UInt64.size)
    (hk : t.nodes[k]? = some node) : t.find? node.offset = some k := by
  have hoffset {j : Nat} {other : Node} (hj : t.nodes[j]? = some other) :
      ∃ p, positions[j]? = some p ∧ other.offset.toNat = first + p := by
    have hget : (positions.map fun p => (first + p).toUInt64)[j]? = some other.offset := by
      rw [← hnodes, List.getElem?_map, Array.getElem?_toList, hj]
      rfl
    rw [List.getElem?_map] at hget
    obtain ⟨p, hp, heq⟩ := Option.map_eq_some_iff.mp hget
    refine ⟨p, hp, ?_⟩
    rw [← heq, Nat.toUInt64_eq, UInt64.toNat_ofNat_of_lt']
    exact hsmall p (List.mem_of_getElem? hp)
  have hmono {j l p q : Nat} (hjl : j < l) (hp : positions[j]? = some p)
      (hq : positions[l]? = some q) : p < q := by
    obtain ⟨hj, rfl⟩ := List.getElem?_eq_some_iff.mp hp
    obtain ⟨hl, rfl⟩ := List.getElem?_eq_some_iff.mp hq
    exact List.pairwise_iff_getElem.mp hpairs j l hj hl hjl
  obtain ⟨p, hp, heq⟩ := hoffset hk
  have hlast : lastAtMost? (·.offset) t.nodes node.offset = some k := by
    apply lastAtMost?_eq _ _ _ _ node hk (UInt64.le_refl _)
    · intro j other hj hother
      obtain ⟨q, hq, heq'⟩ := hoffset hother
      have := hmono hj hq hp
      rw [UInt64.le_iff_toNat_le]
      omega
    · intro j other hj hother
      obtain ⟨q, hq, heq'⟩ := hoffset hother
      have := hmono hj hp hq
      rw [UInt64.le_iff_toNat_le]
      omega
  simp [find?, node?, hlast, hk]

namespace DebugInfo

/-- The entry is one of a unit that can be read. -/
def Holds (info : DebugInfo) (d : Die) : Prop :=
  ∃ slot ∈ info.units, slot.content = .ok d.unit ∧ d.unit.die? d.index = some d

/-- Entries are found where they start, and nowhere else. -/
structure Indexed (info : DebugInfo) : Prop where
  offset_of_dieAt : ∀ {offset d}, info.dieAt offset = .ok d → d.offset = offset
  dieAt_of_holds : ∀ {d}, info.Holds d → info.dieAt d.offset = .ok d

theorem die?_index {u : CompilationUnit} {k : Nat} {d : Die} (h : u.die? k = some d) :
    d.unit = u ∧ d.index = k ∧ u.tree.nodes[k]? = some d.node := by
  obtain ⟨node, hnode, rfl⟩ := Option.map_eq_some_iff.mp h
  exact ⟨rfl, rfl, hnode⟩

theorem dieAt_eq_ok {info : DebugInfo} {offset : UInt64} {d : Die}
    (h : info.dieAt offset = .ok d) :
    ∃ slot, info.slotAt? offset = some slot ∧ slot.content = .ok d.unit ∧
      d.unit.die? d.index = some d ∧ d.node.offset = offset - slot.header.start := by
  unfold dieAt at h
  split at h
  · cases h
  · rename_i slot hslot
    obtain ⟨u, hu, h⟩ := Except.bind_eq_ok h
    split at h
    · rename_i found hfound
      cases h
      obtain ⟨k, hk, hd⟩ := Option.bind_eq_some_iff.mp hfound
      obtain ⟨rfl, rfl, hnode⟩ := die?_index hd
      refine ⟨slot, hslot, hu, hd, ?_⟩
      obtain ⟨j, -, hk⟩ := Option.bind_eq_some_iff.mp hk
      obtain ⟨node, hj, hk⟩ := Option.bind_eq_some_iff.mp hk
      split at hk
      · rename_i heq
        cases hk
        rw [DieTree.node?, hnode] at hj
        cases hj
        exact heq
      · cases hk
    · cases h

theorem mem_of_slotAt? {info : DebugInfo} {offset : UInt64} {slot : Slot}
    (h : info.slotAt? offset = some slot) : slot ∈ info.units := by
  obtain ⟨k, -, h⟩ := Option.bind_eq_some_iff.mp h
  obtain ⟨other, hk, h⟩ := Option.bind_eq_some_iff.mp h
  split at h
  · cases h
    exact Array.mem_of_getElem? hk
  · cases h

theorem holds_of_dieAt {info : DebugInfo} {offset : UInt64} {d : Die}
    (h : info.dieAt offset = .ok d) : info.Holds d := by
  obtain ⟨slot, hslot, hcontent, hd, -⟩ := dieAt_eq_ok h
  exact ⟨slot, mem_of_slotAt? hslot, hcontent, hd⟩

theorem holds_of_die? {info : DebugInfo} {slot : Slot} {u : CompilationUnit} {k : Nat} {d : Die}
    (hslot : slot ∈ info.units) (hu : slot.content = .ok u) (hd : u.die? k = some d) :
    info.Holds d := by
  obtain ⟨rfl, rfl, -⟩ := die?_index hd
  exact ⟨slot, hslot, hu, hd⟩

theorem holds_of_mem_dies {info : DebugInfo} {slot : Slot} {u : CompilationUnit}
    (hslot : slot ∈ info.units) (hu : slot.content = .ok u) {d : Die} (hd : d ∈ u.dies) :
    info.Holds d := by
  obtain ⟨k, -, hk⟩ := List.mem_filterMap.mp hd
  exact holds_of_die? hslot hu hk

/-- The entry is met when all entries are walked over: it lies below the root of its unit. -/
def Walks (info : DebugInfo) (d : Die) : Prop :=
  ∃ slot ∈ info.units, ∃ u, slot.content = .ok u ∧ d ∈ u.dies

theorem Holds.child {info : DebugInfo} {d c : Die} (h : info.Holds d) (hc : c ∈ d.children) :
    info.Holds c := by
  obtain ⟨slot, hslot, hu, -⟩ := h
  obtain ⟨k, -, hk⟩ := List.mem_filterMap.mp hc
  exact holds_of_die? hslot hu hk

theorem header_of_content {s : Sections} {info : DebugInfo} (h : decode s = .ok info)
    {slot : Slot} (hslot : slot ∈ info.units) {u : CompilationUnit}
    (hu : slot.content = .ok u) :
    u.header = slot.header ∧ CompilationUnit.decode s slot.header = .ok u := by
  obtain ⟨headers, -, -, -, hunits⟩ := units_of_decode h
  have hmem : slot ∈ info.units.toList := by simpa using hslot
  rw [hunits] at hmem
  obtain ⟨header, -, heq⟩ := List.mem_map.mp hmem
  have hcontent : CompilationUnit.decode s slot.header = slot.content := by rw [← heq]
  rw [← hcontent] at hu
  exact ⟨(CompilationUnit.decode_eq_ok hu).1, hu⟩

/-- What is found at an offset starts there. -/
theorem offset_of_dieAt {s : Sections} {info : DebugInfo} (h : decode s = .ok info)
    {offset : UInt64} {d : Die} (hd : info.dieAt offset = .ok d) : d.offset = offset := by
  obtain ⟨slot, hslot, hcontent, -, hoffset⟩ := dieAt_eq_ok hd
  obtain ⟨hheader, -⟩ := header_of_content h (mem_of_slotAt? hslot) hcontent
  rw [Die.offset, hheader, hoffset, UInt64.add_comm, UInt64.sub_add_cancel]

/-- The program that is read from sections is indexed. -/
theorem indexed_of_decode {s : Sections} {info : DebugInfo} (h : decode s = .ok info)
    (hsize : s.entries.size < UInt64.size) : info.Indexed where
  offset_of_dieAt := DebugInfo.offset_of_dieAt h
  dieAt_of_holds := by
    rintro d ⟨slot, hslot, hcontent, hd⟩
    obtain ⟨hheader, hdecode⟩ := header_of_content h hslot hcontent
    obtain ⟨-, table, -, htree⟩ := CompilationUnit.decode_eq_ok hdecode
    obtain ⟨-, -, hnode⟩ := die?_index hd
    obtain ⟨positions, hpairs, hbelow, hpositions⟩ := Entry.ascending_readAll slot.header table
    have hnodes := (DieTree.offsets_ofEntries? htree).trans hpositions
    obtain ⟨k, hk⟩ := Array.mem_iff_getElem?.mp hslot
    obtain ⟨low, high, hspans, hhigh⟩ := spans_of_mem h hsize hslot
    have hentries := hspans.entries
    have hsmall : ∀ p ∈ positions, slot.header.entriesStart + p < UInt64.size := by
      intro p hp
      have := hbelow p hp
      omega
    obtain ⟨position, hposition, hoffset⟩ :
        ∃ p ∈ positions, d.node.offset = (slot.header.entriesStart + p).toUInt64 := by
      have hmem : d.node.offset ∈ d.unit.tree.nodes.toList.map (·.offset) :=
        List.mem_map.mpr ⟨d.node, by simpa using Array.mem_of_getElem? hnode, rfl⟩
      rw [hnodes] at hmem
      obtain ⟨p, hp, heq⟩ := List.mem_map.mp hmem
      exact ⟨p, hp, heq.symm⟩
    have hslotAt : info.slotAt? d.offset = some slot := by
      rw [Die.offset, hheader, hoffset]
      refine slotAt?_eq h hsize hk ?_
      have := hbelow position hposition
      omega
    have hfind := DieTree.find?_eq hnodes hpairs hsmall hnode
    have hplace : d.offset - slot.header.start = d.node.offset := by
      rw [Die.offset, hheader, UInt64.add_comm, UInt64.add_sub_cancel]
    have hfound : (d.unit.tree.find? (d.offset - slot.header.start)).bind d.unit.die? = some d := by
      rw [hplace, hfind]
      exact hd
    unfold dieAt
    rw [hslotAt]
    simp only [hcontent, Except.bind, bind, hfound]

end DebugInfo

end DebugSymbols
