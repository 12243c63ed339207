import DebugSymbols.Proofs.Import.Naming

/-!
When a typedef takes the type that has its name.  `Compares` says what that type and the target
come to, and `Sound.sameAlias?_eq_some` that they are taken for the same just if the definition
behind the one describes the entry behind the other.  A typedef that gets a name with underscores
leaves this as it was (`Registered.sameAlias?_ne`).
-/

namespace DebugSymbols.Importer

variable {i : Importer} {scope : Scope} {σ τ : History} {d : Die} {stated : String}
  {target p o : Ordinal} {shape : TypeShape}

/-! ## Comparisons -/

/-- Whether the definition that the shape belongs to describes the entry. -/
def shapeFits (i : Importer) (s : Session) (d : Die) : TypeShape → Except DebugInfo.Error Bool
  | .struct id | .union id => i.describesStruct s id d
  | .enum id => describesEnum s.host id d
  | _ => .ok false

def ShapeFits (i : Importer) (s : Session) (d : Die) (shape : TypeShape) : Prop :=
  i.shapeFits s d shape = .ok true

theorem ShapeFits.isDefinition {s : Session} (h : i.ShapeFits s d shape) : shape.IsDefinition := by
  unfold ShapeFits shapeFits at h
  split at h
  · trivial
  · trivial
  · trivial
  · cases h

/-- The type that has the stated name, the shape of what it is another name for, and where the
target comes from. -/
def aliased? (s : Session) (stated : String) (target : Ordinal) :
    Option (Ordinal × TypeShape × UInt64) := do
  let existing ← s.host.namedType? stated
  match (← s.host.numberedType? existing).shape with
  | .typedef other =>
    let type ← s.host.numberedType? (← s.host.namedType? other)
    some (existing, type.shape, ← s.cache.typeOffset? target)
  | _ => none

theorem sameAlias?_eq (i : Importer) (s : Session) (stated : String) (target : Ordinal) :
    i.sameAlias? s stated target =
      match aliased? s stated target with
      | none => .ok none
      | some (existing, shape, x) => do
        let same ← i.shapeFits s (← i.info.dieAt x) shape
        return if same then some existing else none := by
  unfold sameAlias?
  extract_lets aliased
  rw [show aliased = aliased? s stated target from rfl]
  cases aliased? s stated target with
  | none => rfl
  | some found =>
    obtain ⟨existing, shape, x⟩ := found
    cases shape <;> rfl

/-- The type that has the stated name is another name for one of the shape, and the target comes
from the entry. -/
structure Compares (i : Importer) (s : Session) (stated : String) (target p : Ordinal)
    (shape : TypeShape) (d : Die) : Prop where
  named : s.host.database.namedType? stated = some p
  aliased : ∃ other q, s.host.database.numberedType? p = some ⟨stated, .typedef other⟩ ∧
    s.host.database.namedType? other = some q ∧
    s.host.database.numberedType? q = some ⟨other, shape⟩
  origin : ∃ x, s.cache.typeOffset? target = some x ∧ i.info.dieAt x = .ok d

theorem Sound.aliased?_eq_some (hs : i.Sound σ) {x : UInt64} (hat : i.info.dieAt x = .ok d) :
    aliased? σ.session stated target = some (p, shape, x) ↔
      i.Compares σ.session stated target p shape d ∧
        σ.session.cache.typeOffset? target = some x := by
  unfold aliased?
  simp only [hs.numberedType?]
  constructor
  · intro h
    obtain ⟨e, hnamed, h⟩ := Option.bind_eq_some_iff.mp h
    obtain ⟨t, ht, h⟩ := Option.bind_eq_some_iff.mp h
    obtain ⟨shape₁, ht'⟩ := Database.numberedType?_of_named hnamed
    rw [ht] at ht'
    cases ht'
    split at h
    · rename_i other hother
      obtain ⟨q, hq, h⟩ := Option.bind_eq_some_iff.mp h
      obtain ⟨tq, htq, h⟩ := Option.bind_eq_some_iff.mp h
      obtain ⟨x', hx, h⟩ := Option.bind_eq_some_iff.mp h
      cases h
      cases hother
      obtain ⟨shape₂, htq'⟩ := Database.numberedType?_of_named hq
      rw [htq] at htq'
      cases htq'
      exact ⟨⟨hnamed, ⟨other, q, ht, hq, htq⟩, x, hx, hat⟩, hx⟩
    · cases h
  · rintro ⟨hcompares, hx⟩
    obtain ⟨other, q, hp, hq, htq⟩ := hcompares.aliased
    have hnamed : σ.session.host.namedType? stated = some p := hcompares.named
    have hnamed' : σ.session.host.namedType? other = some q := hq
    simp only [hnamed, hp, hnamed', htq, hx, Option.bind_eq_bind, Option.bind_some]

theorem Sound.sameAlias?_eq_some (hs : i.Sound σ) :
    i.sameAlias? σ.session stated target = .ok (some p) ↔
      ∃ shape d, i.Compares σ.session stated target p shape d ∧ i.ShapeFits σ.session d shape := by
  rw [sameAlias?_eq]
  constructor
  · intro h
    split at h
    · cases h
    · rename_i existing shape x haliased
      obtain ⟨d, hat, h⟩ := Except.bind_eq_ok h
      obtain ⟨same, hsame, h⟩ := Except.bind_eq_ok h
      cases same with
      | false => cases h
      | true =>
        cases h
        exact ⟨shape, d, ((hs.aliased?_eq_some hat).mp haliased).1, hsame⟩
  · rintro ⟨shape, d, hcompares, hfits⟩
    obtain ⟨x, hx, hat⟩ := hcompares.origin
    rw [(hs.aliased?_eq_some hat).mpr ⟨hcompares, hx⟩]
    simp only [hat, bind, Except.bind]
    rw [hfits]
    rfl

/-! ## What a comparison looks at -/

theorem describesStruct_of_same {s t : Session} (hcache : t.cache = s.cache)
    (hget : ∀ id, t.host.structDef? id = s.host.structDef? id) (id : StructId) :
    i.describesStruct t id d = i.describesStruct s id d := by
  have hordinal : t.structOrdinal id = s.structOrdinal id := by
    unfold Session.structOrdinal
    rw [hget]
  have hrecord : describesRecord t.host id d = describesRecord s.host id d := by
    unfold describesRecord
    rw [hget]
  unfold describesStruct
  rw [hordinal, hrecord, hcache]

/-- A new name for something is no definition, so it does not matter to comparisons. -/
theorem Registered.shapeFits_before {other : String} {k : Nat} (hs : i.Sound σ) (hs' : i.Sound τ)
    (h : Registered σ τ stated (.typedef other) o k) (hfits : i.ShapeFits τ.session d shape) :
    i.ShapeFits σ.session d shape := by
  have hstructs (id : StructId) :
      τ.session.host.structDef? id = σ.session.host.structDef? id := by
    rw [hs.structDef?, hs'.structDef?, Database.structDef?, h.structs]
    rfl
  have henums (id : EnumId) : τ.session.host.enumDef? id = σ.session.host.enumDef? id := by
    rw [hs.enumDef?, hs'.enumDef?, Database.enumDef?, h.enums]
    rfl
  cases shape with
  | struct id | union id => exact (describesStruct_of_same h.cache hstructs id).symm.trans hfits
  | enum id =>
    have hsame : describesEnum τ.session.host id d = describesEnum σ.session.host id d := by
      unfold describesEnum
      rw [henums]
    exact hsame.symm.trans hfits
  | _ => exact hfits

theorem Registered.compares {other : String} {k : Nat} (hs : i.Sound σ)
    (he : σ.session.host.database.Extends τ.session.host.database)
    (h : Registered σ τ stated (.typedef other) o k) (hk : 0 < k) (hshape : shape.IsDefinition)
    (hc : i.Compares τ.session stated target p shape d) :
    i.Compares σ.session stated target p shape d := by
  -- the name was not free, and belonged to the same type before
  obtain ⟨p', t, hnamed, ht, -⟩ := (passes_shapeRegistry_iff hs.accepts).mp (h.reaches 0 hk)
  change σ.session.host.database.namedType? stated = some p' at hnamed
  have hsame := he.named hnamed
  rw [hc.named] at hsame
  cases hsame
  obtain ⟨other', q, hp, hq, htq⟩ := hc.aliased
  have hp' : σ.session.host.database.numberedType? p = some ⟨stated, .typedef other'⟩ := by
    rw [ht, he.typedef_eq ht hp]
  have htq' : σ.session.host.database.numberedType? q = some ⟨other', shape⟩ := by
    refine (h.types htq).resolve_right fun heq => ?_
    rw [show shape = .typedef other from heq] at hshape
    exact hshape
  refine ⟨hnamed, ⟨other', q, hp', hs.coherent.named htq', htq'⟩, ?_⟩
  rw [← h.cache]
  exact hc.origin

/-- What is not taken for the same while a name is looked for is not when it is found. -/
theorem Registered.sameAlias?_ne {other : String} {k : Nat} (hs : i.Sound σ) (hs' : i.Sound τ)
    (he : σ.session.host.database.Extends τ.session.host.database)
    (h : Registered σ τ stated (.typedef other) o k) (hk : 0 < k)
    (hne : ∀ p, i.sameAlias? σ.session stated target ≠ .ok (some p)) (p : Ordinal) :
    i.sameAlias? τ.session stated target ≠ .ok (some p) := by
  intro hsame
  obtain ⟨shape, d, hcompares, hfits⟩ := hs'.sameAlias?_eq_some.mp hsame
  exact hne p (hs.sameAlias?_eq_some.mpr ⟨shape, d,
    h.compares hs he hk hfits.isDefinition hcompares, h.shapeFits_before hs hs' hfits⟩)

end DebugSymbols.Importer
