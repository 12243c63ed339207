import DebugSymbols.Import.Repair
import DebugSymbols.Proofs.Database.Calls

/-!
What the type of an entry is in the database.  `Denotes` spells out the translation for each
kind of entry, and `Denotes.mono` says that it lasts while the session goes on.
-/

namespace DebugSymbols

/-! ## References between entries -/

/-- Entries of these kinds are types made from another one. -/
def Tag.isModifier : Tag → Bool
  | constType | volatileType | pointerType | typedef | arrayType | subroutineType => true
  | _ => false

def Tag.isRecord : Tag → Bool
  | structureType | unionType => true
  | _ => false

theorem isRecord_iff {t : Tag} : t.isRecord = true ↔ t = .structureType ∨ t = .unionType := by
  cases t <;> simp [Tag.isRecord]

theorem isModifier_of_isRecord {t : Tag} (h : t.isRecord = true) : t.isModifier = false := by
  rcases isRecord_iff.mp h with rfl | rfl <;> rfl

namespace Die

/-- The entry is made from the type at an offset. -/
def Modifies (d : Die) (offset : UInt64) : Prop :=
  d.tag.isModifier = true ∧ d.reference? .type = .ok (some offset)

/-- The entry has a member whose type is at an offset. -/
def Embeds (d : Die) (offset : UInt64) : Prop :=
  d.tag.isRecord = true ∧ ∃ layout, d.layout = .ok layout ∧ ∃ m ∈ layout, m.typeOffset = some offset

/-- The types whose resolution an entry may ask for. -/
def Refers (d : Die) (offset : UInt64) : Prop := d.Modifies offset ∨ d.Embeds offset

theorem Modifies.isRecord_eq_false {d : Die} {offset : UInt64} (h : d.Modifies offset) :
    d.tag.isRecord = false := by
  cases hrecord : d.tag.isRecord with
  | false => rfl
  | true =>
    have hmodifier := h.1
    rw [isModifier_of_isRecord hrecord] at hmodifier
    cases hmodifier

end Die

namespace Session

/-! ## Translation -/

/-- The entry at an offset has a type. -/
def TypeAt (s : Session) (offset : UInt64) (o : Ordinal) : Prop :=
  ∃ pending, s.cache.type? offset = some (o, pending)

theorem TypeAt.ordinal_eq {s : Session} {offset : UInt64} {o o' : Ordinal} (h : s.TypeAt offset o)
    (h' : s.TypeAt offset o') : o = o' := by
  obtain ⟨pending, h⟩ := h
  obtain ⟨pending', h'⟩ := h'
  rw [h] at h'
  cases h'
  rfl

/-- The type that an entry is made from, or void if it names none. -/
def Target (s : Session) (d : Die) (o : Ordinal) : Prop :=
  match d.reference? .type with
  | .ok (some offset) => s.TypeAt offset o
  | .ok none => ∃ name, s.host.database.numberedType? o = some ⟨name, .void⟩
  | .error _ => False

/-- The definition of an entry's kind that the ordinal belongs to. -/
def Defines (s : Session) (d : Die) (o : Ordinal) : TypeShape → Prop
  | .struct id =>
    d.tag = .structureType ∧ ∃ def_, s.host.database.structDef? id = some def_ ∧ def_.ordinal = o
  | .union id =>
    d.tag = .unionType ∧ ∃ def_, s.host.database.structDef? id = some def_ ∧ def_.ordinal = o
  | .enum id =>
    d.tag = .enumerationType ∧
      ∃ def_, s.host.database.enumDef? id = some def_ ∧ def_.ordinal = o
  | _ => False

/-- What the type of an entry that has the ordinal looks like. -/
def Translates (s : Session) (d : Die) (o : Ordinal) (shape : TypeShape) : Prop :=
  match d.tag with
  | .constType => ∃ inner, shape = .const inner ∧ s.Target d inner
  | .volatileType => ∃ inner, shape = .volatile inner ∧ s.Target d inner
  | .pointerType => ∃ inner, shape = .pointer inner ∧ s.Target d inner
  | .subroutineType => ∃ inner, shape = .function inner ∧ s.Target d inner
  | .arrayType =>
    ∃ inner offset, shape = .array inner (Importer.elementBound d) ∧
      d.reference? .type = .ok (some offset) ∧ s.TypeAt offset inner
  | .typedef => ∃ name, shape = .typedef name ∧ (s.host.database.namedType? name).isSome
  | .baseType =>
    ∃ encoding size expected, d.number .encoding = .ok encoding ∧ d.byteSize = .ok size ∧
      baseShape? encoding.toInt size = some (shape, expected)
  | .unspecifiedType => shape = .void
  | .structureType | .unionType | .enumerationType =>
    match d.isDeclaration with
    | .ok true => shape = .incomplete ∨ shape.IsDefinition
    | .ok false => s.Defines d o shape
    | .error _ => False
  | _ => False

/-- The type with the ordinal is the translation of the entry. -/
def Denotes (s : Session) (d : Die) (o : Ordinal) : Prop :=
  ∃ t, s.host.database.numberedType? o = some t ∧ s.Translates d o t.shape

/-! ## Later sessions -/

/-- What is known about types stays known. -/
structure Extends (s s' : Session) : Prop where
  host : s.host.Extends s'.host
  types : ∀ {offset o}, s.TypeAt offset o → s'.TypeAt offset o

theorem Extends.refl (s : Session) : Extends s s := ⟨.refl _, id⟩

theorem Extends.trans {s s' s'' : Session} (h : Extends s s') (h' : Extends s' s'') :
    Extends s s'' :=
  ⟨h.host.trans h'.host, fun ht => h'.types (h.types ht)⟩

theorem Target.mono {s s' : Session} (he : Extends s s') {d : Die} {o : Ordinal}
    (h : s.Target d o) : s'.Target d o := by
  unfold Target at h ⊢
  split at h
  · exact he.types h
  · obtain ⟨name, ht⟩ := h
    exact ⟨name, he.host.database.type_eq ht (by simp)⟩
  · exact h

theorem Defines.mono {s s' : Session} (he : Extends s s') {d : Die} {o : Ordinal}
    {shape : TypeShape} (h : s.Defines d o shape) : s'.Defines d o shape := by
  have hdb := he.host.database
  cases shape with
  | struct id | union id =>
    obtain ⟨htag, def_, hd, ho⟩ := h
    obtain ⟨members, hd', -⟩ := hdb.structs hd
    exact ⟨htag, _, hd', ho⟩
  | enum id =>
    obtain ⟨htag, def_, hd, ho⟩ := h
    obtain ⟨constants, hd'⟩ := hdb.enums hd
    exact ⟨htag, _, hd', ho⟩
  | _ => exact h

theorem baseShape?_ne_incomplete (encoding : Int) (size : UInt64) (expected : Bool) :
    baseShape? encoding size ≠ some (.incomplete, expected) := by
  unfold baseShape?
  simp only
  split <;> simp

/-- Only a declaration is translated to an incomplete type, which any definition completes. -/
theorem Translates.complete {s : Session} {d : Die} {o : Ordinal} {shape : TypeShape}
    (h : s.Translates d o .incomplete) (hd : shape.IsDefinition) : s.Translates d o shape := by
  unfold Translates at h ⊢
  split at h
  case h_7 =>
    obtain ⟨encoding, size, expected, -, -, hb⟩ := h
    exact absurd hb (baseShape?_ne_incomplete _ _ _)
  case h_9 | h_10 | h_11 =>
    split at h
    · exact .inr hd
    · exact h.elim
    · exact h.elim
  all_goals simp_all

theorem Translates.mono {s s' : Session} (he : Extends s s') {d : Die} {o : Ordinal}
    {shape : TypeShape} (h : s.Translates d o shape) : s'.Translates d o shape := by
  unfold Translates at h ⊢
  split at h
  case h_1 | h_2 | h_3 | h_4 =>
    obtain ⟨inner, hs, ht⟩ := h
    exact ⟨inner, hs, ht.mono he⟩
  case h_5 =>
    obtain ⟨inner, offset, hs, hr, ht⟩ := h
    exact ⟨inner, offset, hs, hr, he.types ht⟩
  case h_6 =>
    obtain ⟨name, hs, hn⟩ := h
    exact ⟨name, hs, he.host.database.isSome_named hn⟩
  case h_9 | h_10 | h_11 =>
    split at h
    · exact h
    · exact h.mono he
    · exact h
  all_goals exact h

/-- A translation lasts. -/
theorem Denotes.mono {s s' : Session} (he : Extends s s') {d : Die} {o : Ordinal}
    (h : s.Denotes d o) : s'.Denotes d o := by
  obtain ⟨t, ht, hs⟩ := h
  obtain ⟨t', ht', hb⟩ := he.host.database.types ht
  refine ⟨t', ht', ?_⟩
  rcases hb.shape with heq | ⟨hi, hd⟩
  · rw [heq]
    exact hs.mono he
  · rw [hi] at hs
    exact (hs.complete hd).mono he

end Session

end DebugSymbols
