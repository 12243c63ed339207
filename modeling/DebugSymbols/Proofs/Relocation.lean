import DebugSymbols.ObjectFile.Decode
import Mathlib.Data.Int.ModEq
import Mathlib.Tactic.Common

/-!
Relocating a section.  A relocation either replaces the bytes of its own field and nothing else
(`Places`), or is at fault (`Fault`); the first one at fault ends the run.  Relocations whose fields
lie apart do not read what the others write, so that their order does not matter.

Main statement: `ObjectFile.relocatedContent?_spec`.
-/

namespace DebugSymbols

namespace Relocation

variable {r r' : Relocation} {bits bits' size : Nat} {target target' : UInt64}
  {content : List UInt8}

/-! ## What a relocation asks for -/

/-- The relocation puts a whole address into a field of so many bits.  There are two widths. -/
def HasField (r : Relocation) (bits : Nat) : Prop :=
  (bits = 32 ∨ bits = 64) ∧ r.value = .address bits

/-- Its target is known and its field lies in a section of so many bytes. -/
structure Places (r : Relocation) (bits : Nat) (target : UInt64) (size : Nat) : Prop where
  hasField : r.HasField bits
  hasTarget : r.target = some target
  within : r.offset.toNat + bits / 8 ≤ size

def Fits (r : Relocation) (size : Nat) : Prop := ∃ bits target, r.Places bits target size

/-- Why a relocation cannot be applied to a section of so many bytes.  The target is looked at
first, then what the field is to hold, and then whether there is room for it. -/
inductive Fault (r : Relocation) (size : Nat) : ObjectFile.Error → Prop
  | target : r.target = none → Fault r size (.badRelocationTarget r.offset)
  | value {target : UInt64} : r.target = some target → (∀ bits, ¬ r.HasField bits) →
      Fault r size (.unsupportedRelocation r.offset)
  | bounds {target : UInt64} {bits : Nat} : r.target = some target → r.HasField bits →
      size < r.offset.toNat + bits / 8 → Fault r size (.relocationOutOfBounds r.offset)

/-- The number in the field. -/
def field (r : Relocation) (bits : Nat) (content : List UInt8) : Nat :=
  littleEndian ((content.drop r.offset.toNat).take (bits / 8))

/-- The byte belongs to the field. -/
def Covers (r : Relocation) (i : Nat) : Prop :=
  ∃ bits, r.HasField bits ∧ r.offset.toNat ≤ i ∧ i < r.offset.toNat + bits / 8

/-- The fields have no byte in common. -/
def Apart (r r' : Relocation) : Prop := ∀ i, r.Covers i → ¬ r'.Covers i

theorem Apart.symm (h : Apart r r') : Apart r' r := fun i hi' hi => h i hi hi'

theorem fits_or_fault (r : Relocation) (size : Nat) : r.Fits size ∨ ∃ e, r.Fault size e := by
  cases htarget : r.target with
  | none => exact .inr ⟨_, .target htarget⟩
  | some target =>
    by_cases hfield : ∃ bits, r.HasField bits
    · obtain ⟨bits, hfield⟩ := hfield
      by_cases hwithin : r.offset.toNat + bits / 8 ≤ size
      · exact .inl ⟨bits, target, hfield, htarget, hwithin⟩
      · exact .inr ⟨_, .bounds htarget hfield (Nat.lt_of_not_le hwithin)⟩
    · exact .inr ⟨_, .value htarget (not_exists.mp hfield)⟩

theorem HasField.width?_eq (h : r.HasField bits) : r.width? = some (bits / 8) := by
  obtain ⟨hbits, hvalue⟩ := h
  unfold width?
  rw [hvalue]
  rcases hbits with rfl | rfl <;> rfl

theorem width?_eq_none (h : ∀ bits, ¬ r.HasField bits) : r.width? = none := by
  unfold width?
  split
  · exact absurd ⟨.inl rfl, ‹_›⟩ (h 32)
  · exact absurd ⟨.inr rfl, ‹_›⟩ (h 64)
  · rfl

theorem Places.apply_eq (h : r.Places bits target content.length) :
    r.apply content = .ok (r.patch target (bits / 8) content) := by
  unfold apply
  rw [h.hasTarget, h.hasField.width?_eq]
  exact if_pos h.within

theorem Fault.apply_eq {e : ObjectFile.Error} (h : r.Fault content.length e) :
    r.apply content = .error e := by
  unfold apply
  cases h with
  | target htarget => rw [htarget]
  | value htarget hfield => rw [htarget, width?_eq_none hfield]
  | bounds htarget hfield hout =>
    rw [htarget, hfield.width?_eq]
    exact if_neg (Nat.not_le_of_lt hout)

/-! ## What it leaves -/

theorem Places.covers_iff (h : r.Places bits target size) {i : Nat} :
    r.Covers i ↔ r.offset.toNat ≤ i ∧ i < r.offset.toNat + bits / 8 := by
  constructor
  · rintro ⟨bits', ⟨-, hvalue⟩, hi⟩
    rw [h.hasField.2] at hvalue
    cases hvalue
    exact hi
  · exact fun hi => ⟨bits, h.hasField, hi⟩

theorem patch_eq : r.patch target (bits / 8) content = content.take r.offset.toNat ++
    (toLittleEndian (bits / 8) (r.fieldValue target (r.field bits content)).toNat ++
      content.drop (r.offset.toNat + bits / 8)) :=
  List.append_assoc _ _ _

theorem Places.length_take (h : r.Places bits target content.length) :
    (content.take r.offset.toNat).length = r.offset.toNat := by
  have := h.within
  rw [List.length_take]
  omega

/-- The bytes of the field are those of the new value. -/
theorem Places.getElem?_patch (h : r.Places bits target content.length) {i : Nat}
    (hi : r.Covers i) :
    (r.patch target (bits / 8) content)[i]? = (toLittleEndian (bits / 8)
      (r.fieldValue target (r.field bits content)).toNat)[i - r.offset.toNat]? := by
  obtain ⟨hle, hlt⟩ := h.covers_iff.mp hi
  rw [patch_eq, List.getElem?_append_right (by rwa [h.length_take]), h.length_take,
    List.getElem?_append_left]
  rw [length_toLittleEndian]
  omega

/-- All other bytes stay. -/
theorem Places.getElem?_patch_of_not (h : r.Places bits target content.length) {i : Nat}
    (hi : ¬ r.Covers i) : (r.patch target (bits / 8) content)[i]? = content[i]? := by
  rw [patch_eq]
  by_cases hle : r.offset.toNat ≤ i
  · have hbehind : r.offset.toNat + bits / 8 ≤ i :=
      Nat.le_of_not_lt fun hlt => hi (h.covers_iff.mpr ⟨hle, hlt⟩)
    rw [List.getElem?_append_right (by rwa [h.length_take]), h.length_take,
      List.getElem?_append_right (by rw [length_toLittleEndian]; omega), length_toLittleEndian,
      List.getElem?_drop]
    congr 1
    omega
  · have hlt : i < r.offset.toNat := Nat.lt_of_not_le hle
    rw [List.getElem?_append_left (by rwa [h.length_take]), List.getElem?_take_of_lt hlt]

/-- A field keeps its number if another one is replaced that lies apart. -/
theorem Places.field_patch_of_apart (h : r.Places bits target content.length)
    (h' : r'.Places bits' target' content.length) (hapart : Apart r r') :
    r'.field bits' (r.patch target (bits / 8) content) = r'.field bits' content := by
  unfold field
  congr 1
  refine List.ext_getElem? fun i => ?_
  by_cases hi : i < bits' / 8
  · rw [List.getElem?_take_of_lt hi, List.getElem?_take_of_lt hi, List.getElem?_drop,
      List.getElem?_drop]
    refine h.getElem?_patch_of_not fun hcovers => hapart _ hcovers ?_
    exact h'.covers_iff.mpr ⟨Nat.le_add_right _ _, Nat.add_lt_add_left hi _⟩
  · have hle : bits' / 8 ≤ i := Nat.le_of_not_lt hi
    rw [List.getElem?_take_eq_none hle, List.getElem?_take_eq_none hle]

theorem toUInt64_modEq (n : Int64) : (n.toUInt64.toNat : Int) ≡ n.toInt [ZMOD 2 ^ 64] := by
  have hsigned : n.toInt = Int.bmod n.toUInt64.toNat (2 ^ 64) :=
    BitVec.toInt_eq_toNat_bmod n.toBitVec
  rw [hsigned]
  exact Int.bmod_emod.symm

/-- The sum is taken in 64 bits, whatever the width of the field. -/
theorem fieldValue_modEq (r : Relocation) (target : UInt64) {old : Nat} (hold : old < 2 ^ 64) :
    ((r.fieldValue target old).toNat : Int) ≡
      (if r.keepsField then (old : Int) else 0) + target.toNat + r.addend.toInt [ZMOD 2 ^ 64] := by
  have hkept : ((if r.keepsField then old.toUInt64 else 0).toNat : Int) =
      if r.keepsField then (old : Int) else 0 := by
    cases r.keepsField with
    | false => rfl
    | true => exact congrArg Nat.cast (UInt64.toNat_ofNat_of_lt' hold)
  rw [fieldValue, UInt64.toNat_add, UInt64.toNat_add, ← hkept]
  push_cast
  exact (Int.mod_modEq _ _).trans ((Int.mod_modEq _ _).add (toUInt64_modEq r.addend))

theorem HasField.field_lt (h : r.HasField bits) (content : List UInt8) :
    r.field bits content < 2 ^ 64 := by
  have hbits : bits ≤ 64 := by
    rcases h.1 with rfl | rfl <;> decide
  have hlength : ((content.drop r.offset.toNat).take (bits / 8)).length ≤ 8 := by
    rw [List.length_take]
    omega
  calc r.field bits content
      < 256 ^ ((content.drop r.offset.toNat).take (bits / 8)).length := littleEndian_lt _
    _ ≤ 256 ^ 8 := Nat.pow_le_pow_right (by decide) hlength
    _ = 2 ^ 64 := by decide

/-- The field holds the sum of its addends and the address, up to what there is no room for. -/
theorem Places.field_patch (h : r.Places bits target content.length) :
    (r.field bits (r.patch target (bits / 8) content) : Int) =
      ((if r.keepsField then (r.field bits content : Int) else 0) + target.toNat +
        r.addend.toInt) % 2 ^ bits := by
  have hwidth : Nat.pow 256 (bits / 8) = 2 ^ bits := by
    rcases h.hasField.1 with rfl | rfl <;> rfl
  have hdvd : (2 ^ bits : Int) ∣ 2 ^ 64 := by
    rcases h.hasField.1 with rfl | rfl <;> decide
  have hvalue := (fieldValue_modEq r target (h.hasField.field_lt content)).of_dvd hdvd
  rw [field, patch_eq, List.drop_left' h.length_take,
    List.take_left' (length_toLittleEndian _ _), littleEndian_toLittleEndian, hwidth]
  push_cast
  exact hvalue

theorem Places.patch_comm (h : r.Places bits target content.length)
    (h' : r'.Places bits' target' content.length) (hapart : Apart r r') :
    r'.patch target' (bits' / 8) (r.patch target (bits / 8) content) =
      r.patch target (bits / 8) (r'.patch target' (bits' / 8) content) := by
  have hlength : (r.patch target (bits / 8) content).length = content.length :=
    length_patch r target _ content h.within
  have hlength' : (r'.patch target' (bits' / 8) content).length = content.length :=
    length_patch r' target' _ content h'.within
  have hafter : r.Places bits target (r'.patch target' (bits' / 8) content).length :=
    hlength' ▸ h
  have hafter' : r'.Places bits' target' (r.patch target (bits / 8) content).length :=
    hlength ▸ h'
  -- a byte belongs to one of the fields at most, and its new value does not depend on the other
  refine List.ext_getElem? fun i => ?_
  by_cases hi : r.Covers i
  · rw [hafter'.getElem?_patch_of_not (hapart i hi), h.getElem?_patch hi, hafter.getElem?_patch hi,
      h'.field_patch_of_apart h hapart.symm]
  · rw [hafter.getElem?_patch_of_not hi]
    by_cases hi' : r'.Covers i
    · rw [hafter'.getElem?_patch hi', h'.getElem?_patch hi', h.field_patch_of_apart h' hapart]
    · rw [hafter'.getElem?_patch_of_not hi', h'.getElem?_patch_of_not hi',
        h.getElem?_patch_of_not hi]

/-! ## Runs -/

/-- A relocation that fits replaces its field and leaves the rest. -/
theorem Fits.exists_apply (h : r.Fits content.length) :
    ∃ new, r.apply content = .ok new ∧ new.length = content.length ∧
      ∀ i, ¬ r.Covers i → new[i]? = content[i]? := by
  obtain ⟨bits, target, h⟩ := h
  exact ⟨_, h.apply_eq, length_patch r target _ content h.within,
    fun i hi => h.getElem?_patch_of_not hi⟩

variable {relocations before after : List Relocation} {new : List UInt8}

theorem applyAll_cons_ok (h : r.apply content = .ok new) :
    applyAll (r :: after) content = applyAll after new := by
  rw [applyAll, List.foldlM_cons, h]
  rfl

theorem applyAll_append_ok (h : applyAll before content = .ok new) :
    applyAll (before ++ after) content = applyAll after new := by
  rw [applyAll, List.foldlM_append, ← applyAll, h]
  rfl

/-- Relocations that all fit replace their fields and leave the rest. -/
theorem exists_applyAll (h : ∀ r ∈ relocations, r.Fits content.length) :
    ∃ new, applyAll relocations content = .ok new ∧ new.length = content.length ∧
      ∀ i, (∀ r ∈ relocations, ¬ r.Covers i) → new[i]? = content[i]? := by
  induction relocations generalizing content with
  | nil => exact ⟨content, rfl, rfl, fun _ _ => rfl⟩
  | cons r rest ih =>
    obtain ⟨next, happly, hlength, hkept⟩ := (h r (by simp)).exists_apply
    have hrest : ∀ r ∈ rest, r.Fits next.length := fun r hr => by
      rw [hlength]
      exact h r (List.mem_cons_of_mem _ hr)
    obtain ⟨new, hall, hlength', hkept'⟩ := ih hrest
    refine ⟨new, (applyAll_cons_ok happly).trans hall, hlength'.trans hlength, fun i hi => ?_⟩
    rw [hkept' i fun r hr => hi r (List.mem_cons_of_mem _ hr), hkept i (hi r (by simp))]

/-- Either all relocations fit, or there is a first one that is at fault. -/
theorem all_fit_or_fault (relocations : List Relocation) (size : Nat) :
    (∀ r ∈ relocations, r.Fits size) ∨ ∃ e before r after, relocations = before ++ r :: after ∧
      (∀ b ∈ before, b.Fits size) ∧ r.Fault size e := by
  induction relocations with
  | nil => exact .inl (by simp)
  | cons r rest ih =>
    rcases fits_or_fault r size with hr | ⟨e, hr⟩
    · rcases ih with hrest | ⟨e, before, r', after, rfl, hbefore, hfault⟩
      · exact .inl (List.forall_mem_cons.mpr ⟨hr, hrest⟩)
      · exact .inr ⟨e, r :: before, r', after, rfl, List.forall_mem_cons.mpr ⟨hr, hbefore⟩, hfault⟩
    · exact .inr ⟨e, [], r, rest, rfl, by simp, hr⟩

theorem applyAll_of_fault {e : ObjectFile.Error} (hbefore : ∀ b ∈ before, b.Fits content.length)
    (h : r.Fault content.length e) : applyAll (before ++ r :: after) content = .error e := by
  obtain ⟨new, hall, hlength, -⟩ := exists_applyAll hbefore
  rw [← hlength] at h
  rw [applyAll_append_ok hall, applyAll, List.foldlM_cons, h.apply_eq]
  rfl

theorem applyAll_eq_ok_iff :
    (∃ new, applyAll relocations content = .ok new) ↔
      ∀ r ∈ relocations, r.Fits content.length := by
  constructor
  · rintro ⟨new, hnew⟩
    rcases all_fit_or_fault relocations content.length with
      hall | ⟨e, before, r, after, rfl, hbefore, hfault⟩
    · exact hall
    · rw [applyAll_of_fault hbefore hfault] at hnew
      cases hnew
  · intro h
    obtain ⟨new, hnew, -⟩ := exists_applyAll h
    exact ⟨new, hnew⟩

theorem applyAll_eq_error_iff {e : ObjectFile.Error} :
    applyAll relocations content = .error e ↔ ∃ before r after,
      relocations = before ++ r :: after ∧ (∀ b ∈ before, b.Fits content.length) ∧
        r.Fault content.length e := by
  constructor
  · intro herror
    rcases all_fit_or_fault relocations content.length with
      hall | ⟨e', before, r, after, rfl, hbefore, hfault⟩
    · obtain ⟨new, hnew⟩ := applyAll_eq_ok_iff.mpr hall
      rw [hnew] at herror
      cases herror
    · rw [applyAll_of_fault hbefore hfault] at herror
      cases herror
      exact ⟨before, r, after, rfl, hbefore, hfault⟩
  · rintro ⟨before, r, after, rfl, hbefore, hfault⟩
    exact applyAll_of_fault hbefore hfault

/-- What the run has come to before one of its relocations, and what that makes of it. -/
theorem applyAll_split (h : applyAll (before ++ r :: after) content = .ok new) :
    ∃ old next bits target, applyAll before content = .ok old ∧ r.apply old = .ok next ∧
      applyAll after next = .ok new ∧ r.Places bits target content.length ∧
      (r.field bits next : Int) = ((if r.keepsField then (r.field bits old : Int) else 0) +
        target.toNat + r.addend.toInt) % 2 ^ bits := by
  have hfits := applyAll_eq_ok_iff.mp ⟨new, h⟩
  have hbefore : ∀ b ∈ before, b.Fits content.length :=
    fun b hb => hfits b (List.mem_append_left _ hb)
  obtain ⟨old, hold, hlength, -⟩ := exists_applyAll hbefore
  obtain ⟨bits, target, hplaces⟩ := hfits r (by simp)
  have hplaces' : r.Places bits target old.length := hlength ▸ hplaces
  have happly := hplaces'.apply_eq
  rw [applyAll_append_ok hold, applyAll_cons_ok happly] at h
  exact ⟨old, _, bits, target, hold, happly, h, hplaces, hplaces'.field_patch⟩

/-- Two relocations that lie apart can be applied in either order. -/
theorem applyAll_swap (h : r.Fits content.length) (h' : r'.Fits content.length)
    (hapart : Apart r r') :
    applyAll (r' :: r :: after) content = applyAll (r :: r' :: after) content := by
  obtain ⟨bits, target, h⟩ := h
  obtain ⟨bits', target', h'⟩ := h'
  have hlength := length_patch r target _ content h.within
  have hlength' := length_patch r' target' _ content h'.within
  rw [applyAll_cons_ok h.apply_eq, applyAll_cons_ok h'.apply_eq,
    applyAll_cons_ok (Places.apply_eq (hlength' ▸ h)),
    applyAll_cons_ok (Places.apply_eq (hlength ▸ h')), h.patch_comm h' hapart]

/-- Relocations that lie apart can be applied in any order. -/
theorem applyAll_perm {reordered : List Relocation} (hperm : reordered.Perm relocations)
    (hfits : ∀ r ∈ relocations, r.Fits content.length) (hapart : relocations.Pairwise Apart) :
    applyAll reordered content = applyAll relocations content := by
  -- on the ways to reorder; what fits goes on to fit, as relocations leave the size of the section
  induction hperm generalizing content with
  | nil => rfl
  | cons r _ ih =>
    obtain ⟨next, happly, hlength, -⟩ := (hfits r (by simp)).exists_apply
    rw [applyAll_cons_ok happly, applyAll_cons_ok happly]
    refine ih (fun r hr => ?_) (List.pairwise_cons.mp hapart).2
    rw [hlength]
    exact hfits r (List.mem_cons_of_mem _ hr)
  | swap r r' rest =>
    have hapart' : Apart r r' := (List.pairwise_cons.mp hapart).1 r' (by simp)
    exact applyAll_swap (hfits r (by simp)) (hfits r' (by simp)) hapart'
  | trans hfirst hsecond ih ih' =>
    have hapart' := (hsecond.pairwise_iff Apart.symm).mpr hapart
    exact (ih (fun r hr => hfits r (hsecond.mem_iff.mp hr)) hapart').trans (ih' hfits hapart)

end Relocation

open Relocation

namespace ObjectFile

variable {f : ObjectFile} {name : String} {s : ObjectSection} {content : ByteArray}

theorem relocatedContent?_eq (hf : f.isRelocatable = true) (hsection : f.section? name = some s)
    (hs : load s = .ok content) :
    f.relocatedContent? name =
      (applyAll s.relocations content.data.toList).map fun new => some new.toByteArray := by
  unfold relocatedContent? loadRelocated
  rw [hsection, Option.mapM_some, hs]
  simp only [bind, Except.bind, hf, if_true]
  cases applyAll s.relocations content.data.toList <;> rfl

theorem relocatedContent?_eq_ok_iff (hf : f.isRelocatable = true)
    (hsection : f.section? name = some s) (hs : load s = .ok content) {result : ByteArray} :
    f.relocatedContent? name = .ok (some result) ↔
      applyAll s.relocations content.data.toList = .ok result.data.toList := by
  rw [relocatedContent?_eq hf hsection hs]
  cases applyAll s.relocations content.data.toList with
  | error e => simp [Except.map]
  | ok new =>
    simp only [Except.map, Except.ok.injEq, Option.some.injEq]
    constructor
    · rintro rfl
      exact List.toList_data_toByteArray.symm
    · rintro rfl
      exact ByteArray.ext (by simp)

theorem relocatedContent?_eq_error_iff (hf : f.isRelocatable = true)
    (hsection : f.section? name = some s) (hs : load s = .ok content) {e : Error} :
    f.relocatedContent? name = .error e ↔
      applyAll s.relocations content.data.toList = .error e := by
  rw [relocatedContent?_eq hf hsection hs]
  cases applyAll s.relocations content.data.toList <;> simp [Except.map]

/-- Loading a section of a file that is to be linked yet succeeds just if every relocation has a
target, is for an address of 32 or 64 bits and has its field in the section; otherwise the first one
that is at fault is reported.  Only the fields change, each one to what is asked for, modulo what it
has room for; and if no two of them share a byte, then any order of the relocations gives the
same. -/
theorem relocatedContent?_spec (hf : f.isRelocatable = true) (hsection : f.section? name = some s)
    (hs : load s = .ok content) :
    ((∃ result, f.relocatedContent? name = .ok (some result)) ↔
      ∀ r ∈ s.relocations, r.Fits content.size) ∧
    (∀ e, f.relocatedContent? name = .error e ↔ ∃ before r after,
      s.relocations = before ++ r :: after ∧ (∀ b ∈ before, b.Fits content.size) ∧
        r.Fault content.size e) ∧
    ∀ result, f.relocatedContent? name = .ok (some result) →
      result.size = content.size ∧
      (∀ i, (∀ r ∈ s.relocations, ¬ r.Covers i) → result[i]? = content[i]?) ∧
      (∀ before r after, s.relocations = before ++ r :: after → ∃ old new bits target,
        applyAll before content.data.toList = .ok old ∧ r.apply old = .ok new ∧
        applyAll after new = .ok result.data.toList ∧ r.Places bits target content.size ∧
        (r.field bits new : Int) = ((if r.keepsField then (r.field bits old : Int) else 0) +
          target.toNat + r.addend.toInt) % 2 ^ bits) ∧
      (s.relocations.Pairwise Apart → ∀ (g : ObjectFile) (t : ObjectSection),
        g.isRelocatable = true → g.section? name = some t → load t = .ok content →
          t.relocations.Perm s.relocations → g.relocatedContent? name = .ok (some result)) := by
  have hlength : content.data.toList.length = content.size := Array.length_toList
  have hok {result : ByteArray} : f.relocatedContent? name = .ok (some result) ↔
      applyAll s.relocations content.data.toList = .ok result.data.toList :=
    relocatedContent?_eq_ok_iff hf hsection hs
  have hfits : (∃ new, applyAll s.relocations content.data.toList = .ok new) ↔
      ∀ r ∈ s.relocations, r.Fits content.size := by
    rw [applyAll_eq_ok_iff, hlength]
  refine ⟨?_, fun e => ?_, fun result hresult => ?_⟩
  · rw [← hfits]
    constructor
    · rintro ⟨result, hresult⟩
      exact ⟨_, hok.mp hresult⟩
    · rintro ⟨new, hnew⟩
      exact ⟨new.toByteArray, hok.mpr (by rwa [List.toList_data_toByteArray])⟩
  · rw [relocatedContent?_eq_error_iff hf hsection hs, applyAll_eq_error_iff, hlength]
  · have hnew := hok.mp hresult
    have hall := hfits.mp ⟨_, hnew⟩
    obtain ⟨new, hnew', hsame, hkept⟩ := exists_applyAll (hlength ▸ hall)
    cases hnew.symm.trans hnew'
    refine ⟨?_, fun i hi => ?_, fun before r after hsplit => ?_,
      fun hapart g t hg ht hcontent hperm => ?_⟩
    · rwa [Array.length_toList, hlength] at hsame
    · have hbyte := hkept i hi
      rw [Array.getElem?_toList, Array.getElem?_toList] at hbyte
      exact hbyte
    · rw [hsplit] at hnew
      rw [← hlength]
      exact applyAll_split hnew
    · have hreordered := applyAll_perm hperm (hlength ▸ hall) hapart
      exact (relocatedContent?_eq_ok_iff hg ht hcontent).mpr (hreordered.trans hnew)

def sixteenBytes : ByteArray :=
  ⟨#[0xfe, 0xff, 0xff, 0xff, 1, 2, 3, 4, 5, 6, 7, 8, 9, 10, 11, 12]⟩

/-- A section of sixteen bytes. -/
def sectionWith (relocations : List Relocation) : ObjectSection where
  name := some (ObjectFormat.nameBytes ".debug_info")
  stored := .ok (.plain sixteenBytes)
  relocations

def fileWith (relocations : List Relocation) : ObjectFile where
  format := .elf
  byteOrder := .little
  machine := none
  isRelocatable := true
  sections := [sectionWith relocations]

theorem section?_fileWith (relocations : List Relocation) :
    (fileWith relocations).section? ".debug_info" = some (sectionWith relocations) := by
  simp [section?, fileWith, sectionWith, ObjectFormat.spellings]

/-- The address 1 less 2 takes eight bytes.  The address 5 is added to a number of four bytes, which
gets too large for them. -/
def wrapping : List Relocation :=
  [⟨8, .address 64, some 1, -2, false⟩, ⟨0, .address 32, some 5, 0, true⟩]

/-- Both sums wrap around, in either order.  Of two more relocations that are at fault the first
one is reported, whose field ends behind the greatest offset. -/
theorem relocatedContent?_spec_wrapping :
    let behind : Relocation := ⟨0xfffffffffffffffc, .address 64, some 0, 0, false⟩
    let untold : Relocation := ⟨4, .other, none, 0, false⟩
    (∃ result, (fileWith wrapping).relocatedContent? ".debug_info" = .ok (some result) ∧
      result.data.toList =
        [3, 0, 0, 0, 1, 2, 3, 4, 0xff, 0xff, 0xff, 0xff, 0xff, 0xff, 0xff, 0xff] ∧
      (fileWith wrapping.reverse).relocatedContent? ".debug_info" = .ok (some result)) ∧
    (fileWith (wrapping ++ [behind, untold])).relocatedContent? ".debug_info" =
      .error (.relocationOutOfBounds 0xfffffffffffffffc) := by
  intro behind untold
  have hload (relocations : List Relocation) :
      load (sectionWith relocations) = .ok sixteenBytes := rfl
  have hspec (relocations : List Relocation) :=
    relocatedContent?_spec (f := fileWith relocations) rfl (section?_fileWith relocations)
      (hload relocations)
  have hfits : ∀ r ∈ wrapping, r.Fits sixteenBytes.size := by
    intro r hr
    simp only [wrapping, List.mem_cons, List.not_mem_nil, or_false] at hr
    rcases hr with rfl | rfl
    · exact ⟨64, 1, ⟨.inr rfl, rfl⟩, rfl, by decide⟩
    · exact ⟨32, 5, ⟨.inl rfl, rfl⟩, rfl, by decide⟩
  have hapart : wrapping.Pairwise Apart := by
    simp only [wrapping, List.pairwise_cons, List.mem_singleton, forall_eq, List.not_mem_nil,
      false_implies, implies_true, List.Pairwise.nil, and_true]
    rintro i ⟨bits, ⟨-, hbits⟩, hle, -⟩ ⟨bits', ⟨-, hbits'⟩, -, hlt⟩
    cases hbits
    cases hbits'
    have : (8 : Nat) ≤ i := hle
    have : i < 4 := hlt
    omega
  obtain ⟨result, hresult⟩ := (hspec wrapping).1.mpr hfits
  refine ⟨⟨result, hresult, ?_, ?_⟩, ?_⟩
  · have hnew := (relocatedContent?_eq_ok_iff rfl (section?_fileWith _) (hload _)).mp hresult
    have hrun : applyAll wrapping sixteenBytes.data.toList =
        .ok [3, 0, 0, 0, 1, 2, 3, 4, 0xff, 0xff, 0xff, 0xff, 0xff, 0xff, 0xff, 0xff] := by
      decide +kernel
    exact Except.ok.inj (hnew.symm.trans hrun)
  · exact ((hspec wrapping).2.2 result hresult).2.2.2 hapart _ _ rfl (section?_fileWith _) rfl
      (List.reverse_perm wrapping)
  · exact ((hspec _).2.1 _).mpr ⟨wrapping, behind, [untold], rfl, hfits,
      .bounds rfl ⟨.inr rfl, rfl⟩ (by decide)⟩

end ObjectFile

end DebugSymbols
