import DebugSymbols.Import.FrameBase
import Mathlib.Data.List.Induction

/-!
Where a stack frame is based.  Of the locations that describe a frame base only those count that
are one place relative to a register or to the canonical address of the frame (`anchors`).  They
are gone over once: each becomes an area, the last one without a range the base, and one with a
range makes the whole base one of several areas.  `Decides` says which of them the place of a
variable depends on in the end.

Main statement: `stackOffset?_ofLocations`.
-/

namespace DebugSymbols

/-! ## Locations of a frame base -/

namespace Location

/-- How far the place lies from a register or from the canonical address of the frame, if the
location is nothing but such a place. -/
def baseOffset? (l : Location) : Option Int64 :=
  match l.atoms with
  | [.registerOffset _ offset] => some offset
  | [.register _] | [.callFrameAddress] => some 0
  | _ => none

/-- The place is relative to the frame pointer. -/
def onFramePointer (machine : Machine) (l : Location) : Bool :=
  match l.atoms with
  | [.registerOffset number _] | [.register number] => number == machine.framePointer
  | _ => false

/-- The addresses at which a location of a frame base holds. -/
def extent (function : AddressRange) (l : Location) : AddressRange := l.range.getD function

/-- The extent of the location is not empty, begins no later than the range and ends no earlier. -/
def Spans (function : AddressRange) (l : Location) (place : AddressRange) : Prop :=
  (l.extent function).start < (l.extent function).stop ∧
    (l.extent function).start ≤ place.start ∧ place.stop ≤ (l.extent function).stop

theorem covers_extent_iff {function place : AddressRange} {l : Location} :
    (l.extent function).covers place = true ↔ l.Spans function place :=
  AddressRange.covers_iff

end Location

/-- The area suits a variable that is confined to the range, or to none. -/
def OffsetArea.suits (range : Option AddressRange) (a : OffsetArea) : Bool :=
  range.elim a.usesFramePointer a.range.covers

namespace FrameBase

/-- The locations that a frame base is made from. -/
def anchors (locations : List Location) : List Location :=
  locations.filter (·.baseOffset?.isSome)

/-- The location suits a variable that is confined to the range, or to none. -/
def Suits (machine : Machine) (function : AddressRange) (l : Location) :
    Option AddressRange → Prop
  | some place => l.Spans function place
  | none => l.onFramePointer machine = true

/-- Which of the anchors, if any, the place of a variable depends on: the last one if none of them
has a range, whatever the range of the variable, and otherwise the first one that suits it. -/
inductive Decides (machine : Machine) (function : AddressRange) (anchors : List Location)
    (range : Option AddressRange) : Option Location → Prop
  | nothing : anchors = [] → Decides machine function anchors range none
  | last {before : List Location} {l : Location} :
      anchors = before ++ [l] → (∀ a ∈ anchors, a.range = none) →
      Decides machine function anchors range (some l)
  | first {before after : List Location} {l : Location} :
      anchors = before ++ l :: after → (∃ a ∈ anchors, a.range ≠ none) →
      (∀ b ∈ before, ¬ Suits machine function b range) → Suits machine function l range →
      Decides machine function anchors range (some l)
  | unsuited : (∃ a ∈ anchors, a.range ≠ none) →
      (∀ a ∈ anchors, ¬ Suits machine function a range) →
      Decides machine function anchors range none

/-! ## Making a frame base -/

/-- The area that an anchor becomes. -/
def areaOf (function : AddressRange) (machine : Machine) (l : Location) : OffsetArea :=
  ⟨l.extent function, l.baseOffset?.getD 0, l.onFramePointer machine⟩

variable {function : AddressRange} {machine : Machine} {locations : List Location}

theorem anchor?_eq (machine : Machine) (l : Location) :
    l.single?.bind (anchor? machine) =
      l.baseOffset?.map fun offset => (offset, l.onFramePointer machine) := by
  obtain ⟨range, atoms⟩ := l
  match atoms with
  | [] => rfl
  | [atom] => cases atom <;> rfl
  | first :: second :: rest => cases first <;> rfl

/-- What is no anchor changes nothing. -/
theorem add_of_not_anchor {frame : FrameBase} {l : Location} (h : l.baseOffset? = none) :
    add function machine frame l = frame := by
  unfold add
  rw [anchor?_eq, h]
  rfl

theorem add_of_anchor {frame : FrameBase} {l : Location} {offset : Int64}
    (h : l.baseOffset? = some offset) :
    add function machine frame l =
      { areas := frame.areas ++ [areaOf function machine l]
        base := if l.range = none then offset else frame.base
        fromList := frame.fromList || l.range.isSome } := by
  unfold add areaOf Location.extent
  rw [anchor?_eq, h]
  cases l.range <;> simp

theorem ofLocations_append (l : Location) :
    ofLocations (locations ++ [l]) function machine =
      add function machine (ofLocations locations function machine) l := by
  simp [ofLocations]

theorem anchors_append (l : Location) :
    anchors (locations ++ [l]) =
      anchors locations ++ if l.baseOffset?.isSome then [l] else [] := by
  rw [anchors, List.filter_append, List.filter_cons, List.filter_nil]
  rfl

/-- A frame base is made from its anchors alone. -/
theorem ofLocations_anchors :
    ofLocations (anchors locations) function machine =
      ofLocations locations function machine := by
  induction locations using List.reverseRecOn with
  | nil => rfl
  | append_singleton locations l ih =>
    rw [anchors_append, ofLocations_append]
    cases hl : l.baseOffset? with
    | none => simpa [add_of_not_anchor hl] using ih
    | some offset =>
      simp only [Option.isSome_some, if_true]
      rw [ofLocations_append, ih]

theorem areas_ofLocations :
    (ofLocations locations function machine).areas =
      (anchors locations).map (areaOf function machine) := by
  induction locations using List.reverseRecOn with
  | nil => rfl
  | append_singleton locations l ih =>
    rw [anchors_append, ofLocations_append]
    cases hl : l.baseOffset? with
    | none => simpa [add_of_not_anchor hl] using ih
    | some offset => simp [add_of_anchor hl, ih]

theorem fromList_ofLocations :
    (ofLocations locations function machine).fromList = true ↔
      ∃ a ∈ anchors locations, a.range ≠ none := by
  induction locations using List.reverseRecOn with
  | nil => simp [ofLocations, empty, anchors]
  | append_singleton locations l ih =>
    rw [anchors_append, ofLocations_append]
    cases hl : l.baseOffset? with
    | none => simpa [add_of_not_anchor hl] using ih
    | some offset =>
      simp only [add_of_anchor hl, Bool.or_eq_true, ih, Option.isSome_some, if_true,
        List.mem_append, List.mem_singleton, or_and_right, exists_or, exists_eq_left]
      rw [Option.isSome_iff_ne_none]

/-- Of anchors without a range the last one is the base. -/
theorem base_ofLocations {before : List Location} {l : Location}
    (hlast : anchors locations = before ++ [l]) (hrange : l.range = none) :
    l.baseOffset? = some (ofLocations locations function machine).base := by
  have hanchor : l ∈ anchors locations := by simp [hlast]
  obtain ⟨offset, hl⟩ := Option.isSome_iff_exists.mp (List.mem_filter.mp hanchor).2
  rw [← ofLocations_anchors, hlast, ofLocations_append, add_of_anchor hl, if_pos hrange, hl]

/-! ## Finding the place of a variable -/

theorem exists_decides (machine : Machine) (function : AddressRange) (anchors : List Location)
    (range : Option AddressRange) : ∃ chosen, Decides machine function anchors range chosen := by
  classical
  rcases List.eq_nil_or_concat anchors with hnil | ⟨before, l, hlast⟩
  · exact ⟨none, .nothing hnil⟩
  · by_cases hranges : ∃ a ∈ anchors, a.range ≠ none
    · cases hfind : anchors.find? fun a => decide (Suits machine function a range) with
      | some l =>
        obtain ⟨hl, before, after, hsplit, hbefore⟩ := List.find?_eq_some_iff_append.mp hfind
        refine ⟨some l, .first hsplit hranges (fun b hb => ?_) (of_decide_eq_true hl)⟩
        simpa using hbefore b hb
      | none =>
        refine ⟨none, .unsuited hranges fun a ha => ?_⟩
        simpa using List.find?_eq_none.mp hfind a ha
    · rw [List.concat_eq_append] at hlast
      refine ⟨some l, .last hlast fun a ha => ?_⟩
      by_contra hne
      exact hranges ⟨a, ha, hne⟩

/-- A base of several areas. -/
theorem stackOffset?_of_fromList {frame : FrameBase} (hfrom : frame.fromList = true)
    (range : Option AddressRange) (operand : Int64) :
    frame.stackOffset? range operand =
      (frame.areas.find? (·.suits range)).map fun a => a.offset + operand := by
  unfold stackOffset?
  cases hareas : frame.areas with
  | nil => rfl
  | cons a rest => cases range <;> simp [hfrom, OffsetArea.suits]

theorem suits_areaOf {range : Option AddressRange} {l : Location} :
    (areaOf function machine l).suits range = true ↔ Suits machine function l range := by
  cases range with
  | none => exact Iff.rfl
  | some place => exact Location.covers_extent_iff

/-- What is decided on is what a look-up finds. -/
theorem stackOffset?_of_decides {range : Option AddressRange} {chosen : Option Location}
    (h : Decides machine function (anchors locations) range chosen) (operand : Int64) :
    (ofLocations locations function machine).stackOffset? range operand =
      chosen.map fun l => l.baseOffset?.getD 0 + operand := by
  cases h with
  | nothing hnil =>
    have hareas : (ofLocations locations function machine).areas = [] := by
      rw [areas_ofLocations, hnil, List.map_nil]
    simp [stackOffset?, hareas]
  | @last before l hlast hranges =>
    have hareas : (ofLocations locations function machine).areas ≠ [] := by
      rw [areas_ofLocations, hlast]
      simp
    have hfrom : (ofLocations locations function machine).fromList = false := by
      rw [← Bool.not_eq_true, fromList_ofLocations]
      simpa using hranges
    have hbase : l.baseOffset? = some (ofLocations locations function machine).base :=
      base_ofLocations hlast (hranges l (by simp [hlast]))
    simp [stackOffset?, hareas, hfrom, hbase]
  | @first before after l hsplit hranges hbefore hl =>
    rw [stackOffset?_of_fromList (fromList_ofLocations.mpr hranges), areas_ofLocations]
    have hfind : ((anchors locations).map (areaOf function machine)).find? (·.suits range) =
        some (areaOf function machine l) := by
      refine List.find?_eq_some_iff_append.mpr ⟨suits_areaOf.mpr hl,
        before.map (areaOf function machine), after.map (areaOf function machine), ?_, ?_⟩
      · rw [hsplit, List.map_append, List.map_cons]
      · intro area harea
        obtain ⟨b, hb, rfl⟩ := List.mem_map.mp harea
        have hnot := hbefore b hb
        rw [← suits_areaOf] at hnot
        simpa using hnot
    rw [hfind]
    rfl
  | unsuited hranges hnone =>
    rw [stackOffset?_of_fromList (fromList_ofLocations.mpr hranges), areas_ofLocations]
    have hfind : ((anchors locations).map (areaOf function machine)).find? (·.suits range) =
        none := by
      refine List.find?_eq_none.mpr fun area harea => ?_
      obtain ⟨a, ha, rfl⟩ := List.mem_map.mp harea
      rw [suits_areaOf]
      exact hnone a ha
    rw [hfind]
    rfl

theorem mem_anchors {l : Location} :
    l ∈ anchors locations ↔ l ∈ locations ∧ ∃ offset, l.baseOffset? = some offset := by
  rw [anchors, List.mem_filter, Option.isSome_iff_exists]

theorem Decides.mem {range : Option AddressRange} {l : Location}
    (h : Decides machine function (anchors locations) range (some l)) : l ∈ anchors locations := by
  cases h with
  | last hlast => simp [hlast]
  | first hsplit => simp [hsplit]

end FrameBase

open FrameBase

/-- Of the anchors of a frame base one at most decides on the place of a variable: then the place is
as far from the base as the anchor and the operand say together, and there is none otherwise.  What
is no anchor has no part in this, and a variable that an anchor was found for by its range never
leaves the extent of that. -/
theorem stackOffset?_ofLocations (locations : List Location) (function : AddressRange)
    (machine : Machine) (range : Option AddressRange) (operand : Int64) :
    (∃ chosen, Decides machine function (anchors locations) range chosen) ∧
    (∀ l, Decides machine function (anchors locations) range (some l) →
      ∃ offset, l.baseOffset? = some offset ∧
        (ofLocations locations function machine).stackOffset? range operand =
          some (offset + operand)) ∧
    (Decides machine function (anchors locations) range none →
      (ofLocations locations function machine).stackOffset? range operand = none) ∧
    ofLocations locations function machine =
      ofLocations (anchors locations) function machine ∧
    ∀ place l, range = some place → (∃ a ∈ anchors locations, a.range ≠ none) →
      Decides machine function (anchors locations) range (some l) →
        ∀ a ∈ place, a ∈ l.extent function := by
  refine ⟨exists_decides machine function _ range, fun l h => ?_,
    fun h => stackOffset?_of_decides h operand, ofLocations_anchors.symm, ?_⟩
  · obtain ⟨offset, hoffset⟩ := (mem_anchors.mp h.mem).2
    refine ⟨offset, hoffset, ?_⟩
    rw [stackOffset?_of_decides h operand, Option.map_some, hoffset, Option.getD_some]
  · rintro place l rfl ⟨ranged, hmem, hranged⟩ h a ha
    cases h with
    | last _ hranges => exact absurd (hranges ranged hmem) hranged
    | first _ _ _ hspans =>
      exact AddressRange.mem_of_covers (Location.covers_extent_iff.mpr hspans) ha

/-- A variable that lives in two areas in turn has no place, though each area has one. -/
example :
    let base := ofLocations
      [⟨some ⟨0x10, 0x20⟩, [.registerOffset 5 (-8)]⟩, ⟨some ⟨0x20, 0x30⟩, [.registerOffset 4 16]⟩]
      ⟨0x10, 0x40⟩ .x86
    base.stackOffset? (some ⟨0x18, 0x20⟩) 4 = some (-4) ∧
      base.stackOffset? (some ⟨0x20, 0x28⟩) 4 = some 20 ∧
      base.stackOffset? (some ⟨0x18, 0x28⟩) 4 = none := by
  decide

end DebugSymbols
