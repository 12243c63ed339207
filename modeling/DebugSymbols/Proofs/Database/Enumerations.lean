import DebugSymbols.Proofs.Agreement
import DebugSymbols.Proofs.Database.Calls

/-!
What stays true of enumerations.  `Retains` says that those of a database are the same in another
one, that new ones give each constant a name of its own, and that whatever is called an enumeration
belongs to one if it did before.  What is said here of the constants of an enumeration, and of the
one that is found by a constant, lasts from a database to one that retains it.
-/

namespace DebugSymbols.Database

variable {db db' db'' : Database} {ps : List (String × UInt64)} {o : Ordinal}

/-! ## Enumerations that stay -/

/-- Whatever is called an enumeration belongs to one. -/
def EnumsBacked (db : Database) : Prop :=
  ∀ o t id, db.numberedType? o = some t → t.shape = .enum id →
    ∃ d, db.enumDef? id = some d ∧ d.ordinal = o

/-- The enumerations of the first database are the same in the second, and the others there are as
they should be. -/
structure Retains (db db' : Database) : Prop where
  enums : ∀ {id d}, db.enumDef? id = some d → db'.enumDef? id = some d
  distinct : ∀ {id d}, db'.enumDef? id = some d →
    db.enumDef? id = some d ∨ (Listing.names d.constants).Nodup
  backed : db.EnumsBacked → db'.EnumsBacked

theorem Retains.refl (db : Database) : Retains db db := ⟨id, .inl, id⟩

theorem Retains.trans (h : Retains db db') (h' : Retains db' db'') : Retains db db'' where
  enums hd := h'.enums (h.enums hd)
  distinct hd := (h'.distinct hd).elim h.distinct .inr
  backed hb := h'.backed (h.backed hb)

/-- Enumerations stay as long as no type is called a new one. -/
theorem retains_of_types (henums : db'.enums = db.enums)
    (ht : ∀ {o t id}, db'.numberedType? o = some t → t.shape = .enum id →
      db.numberedType? o = some t) : Retains db db' where
  enums hd := by rwa [enumDef?, henums]
  distinct hd := by
    rw [enumDef?, henums] at hd
    exact .inl hd
  backed hb o t id hget hshape := by
    obtain ⟨d, hd, ho⟩ := hb o t id (ht hget hshape) hshape
    exact ⟨d, by rwa [enumDef?, henums], ho⟩

theorem retains_addNamedType? {name : String} {shape : TypeShape} (hshape : ¬ shape.IsDefinition)
    (h : db.addNamedType? name shape = some (o, db')) : Retains db db' := by
  obtain ⟨-, rfl, rfl⟩ := addNamedType?_eq_some h
  refine retains_of_types rfl fun {o' t id} hget ht => ?_
  rw [numberedType?_push rfl] at hget
  split at hget
  · cases hget
    rw [show shape = .enum id from ht] at hshape
    exact absurd trivial hshape
  · exact hget

theorem retains_of_sameTypes {h h' : Host} (hs : h.SameTypes h') :
    Retains h.database h'.database :=
  retains_of_types hs.enums fun hget _ => by rwa [← numberedType?_congr hs.types]

theorem AddsStruct.retains {name : Option String} {isUnion : Bool} {id : StructId} {d : StructDef}
    (h : AddsStruct db name isUnion id d db') : Retains db db' := by
  refine retains_of_types h.enums fun {o t id'} hget ht => ?_
  rw [h.types] at hget
  split at hget
  · cases hget
    unfold StructDef.shape at ht
    split at ht <;> cases ht
  · exact hget

theorem AddsMember.retains {id : StructId} {m : Member} {d : StructDef}
    (h : AddsMember db id m d db') : Retains db db' := by
  obtain rfl := h.eq
  exact retains_of_types rfl fun hget _ => hget

/-! ## New enumerations -/

/-- A new enumeration with constants of different names takes nothing away from the others. -/
theorem AddsEnum.retains {name : Option String} {id : EnumId} {d : EnumDef}
    (h : AddsEnum db name id d db') {constants : List (String × UInt64)}
    (hnew : db''.enumDef? id = some { d with constants })
    (hdistinct : (Listing.names constants).Nodup)
    (hothers : ∀ id', id' ≠ id → db''.enumDef? id' = db'.enumDef? id')
    (htypes : ∀ o, db''.numberedType? o = db'.numberedType? o) : Retains db db'' := by
  have hold {id' : EnumId} (hne : id' ≠ id) : db''.enumDef? id' = db.enumDef? id' := by
    rw [hothers id' hne, h.enumDef?, if_neg hne]
  have hkept {id' : EnumId} {d' : EnumDef} (hd : db.enumDef? id' = some d') :
      db''.enumDef? id' = some d' := by
    have hne : id' ≠ id := by
      rintro rfl
      rw [h.unknown] at hd
      cases hd
    rwa [hold hne]
  refine ⟨hkept, fun {id' d'} hd => ?_, fun hb o t id' hget hshape => ?_⟩
  · by_cases hid : id' = id
    · subst hid
      rw [hnew] at hd
      cases hd
      exact .inr hdistinct
    · exact .inl (hold hid ▸ hd)
  · rw [htypes, h.types] at hget
    split at hget
    · rename_i ho
      cases hget
      cases hshape
      exact ⟨_, hnew, ho.symm⟩
    · obtain ⟨d', hd', ho⟩ := hb o t id' hget hshape
      exact ⟨d', hkept hd', ho⟩

/-- If whatever is called an enumeration belongs to one, then it did so without the new one. -/
theorem AddsEnum.backed_of {name : Option String} {id : EnumId} {d : EnumDef}
    (h : AddsEnum db name id d db') {constants : List (String × UInt64)}
    (hnew : db''.enumDef? id = some { d with constants })
    (hothers : ∀ id', id' ≠ id → db''.enumDef? id' = db'.enumDef? id')
    (htypes : ∀ o, db''.numberedType? o = db'.numberedType? o) (hb : db''.EnumsBacked) :
    db.EnumsBacked := by
  intro o t id' hget hshape
  have hne : o ≠ d.ordinal := by
    rintro rfl
    rw [h.vacant hget] at hshape
    cases hshape
  have hget' : db''.numberedType? o = some t := by rw [htypes, h.types, if_neg hne, hget]
  obtain ⟨e, he, ho⟩ := hb o t id' hget' hshape
  have hid : id' ≠ id := by
    rintro rfl
    rw [hnew] at he
    cases he
    exact hne ho.symm
  refine ⟨e, ?_, ho⟩
  rwa [hothers id' hid, h.enumDef?, if_neg hid] at he

/-! ## Enumerations by their constants -/

/-- The first enumeration that defines a constant stays the first. -/
theorem Retains.enumWithConstant? (h : Retains db db') {c : String} {id : EnumId}
    (hfind : db.enumWithConstant? c = some id) : db'.enumWithConstant? c = some id := by
  obtain ⟨k, hk, rfl⟩ := Option.map_eq_some_iff.mp hfind
  obtain ⟨hlt, hfirst, hbefore⟩ := Array.findIdx?_eq_some_iff_getElem.mp hk
  have hkept (j : Nat) (hj : j < db.enums.size) : db'.enums[j]? = some db.enums[j] := by
    have hd : db.enumDef? ⟨j⟩ = some db.enums[j] := Array.getElem?_eq_getElem hj
    exact h.enums hd
  obtain ⟨hlt', hget⟩ := Array.getElem?_eq_some_iff.mp (hkept k hlt)
  refine Option.map_eq_some_iff.mpr ⟨k, Array.findIdx?_eq_some_iff_getElem.mpr
    ⟨hlt', by rw [hget]; exact hfirst, fun j hj => ?_⟩, rfl⟩
  have hjlt : j < db.enums.size := Nat.lt_trans hj hlt
  obtain ⟨_, hget'⟩ := Array.getElem?_eq_some_iff.mp (hkept j hjlt)
  rw [hget']
  exact hbefore j hj

theorem enumDef?_of_enumWithConstant? {c : String} {id : EnumId}
    (h : db.enumWithConstant? c = some id) : ∃ d, db.enumDef? id = some d := by
  obtain ⟨k, hk, rfl⟩ := Option.map_eq_some_iff.mp h
  obtain ⟨hlt, -, -⟩ := Array.findIdx?_eq_some_iff_getElem.mp hk
  exact ⟨_, Array.getElem?_eq_getElem hlt⟩

/-- A constant that no enumeration had is found in the next one. -/
theorem enumWithConstant?_next {c : String} {d : EnumDef} (hnone : db.enumWithConstant? c = none)
    (hkept : ∀ {id d}, db.enumDef? id = some d → db'.enumDef? id = some d)
    (hd : db'.enumDef? ⟨db.enums.size⟩ = some d) (hc : c ∈ Listing.names d.constants) :
    db'.enumWithConstant? c = some ⟨db.enums.size⟩ := by
  obtain ⟨hlt, hget⟩ := Array.getElem?_eq_some_iff.mp hd
  obtain ⟨pair, hpair, rfl⟩ := List.mem_map.mp hc
  refine Option.map_eq_some_iff.mpr ⟨_, Array.findIdx?_eq_some_iff_getElem.mpr
    ⟨hlt, ?_, fun j hj => ?_⟩, rfl⟩
  · rw [hget]
    exact List.any_eq_true.mpr ⟨pair, hpair, by simp⟩
  · have hd' : db.enumDef? ⟨j⟩ = some db.enums[j] := Array.getElem?_eq_getElem hj
    obtain ⟨_, hget'⟩ := Array.getElem?_eq_some_iff.mp (hkept hd')
    rw [hget']
    have hall := Array.findIdx?_eq_none_iff.mp (Option.map_eq_none_iff.mp hnone)
    rw [hall _ (Array.getElem_mem hj)]
    simp

/-- What is found under a name is the enumeration of that name. -/
theorem of_findEnum? {name : String} {id : EnumId} (h : db.findEnum? name = some id) :
    ∃ o t, db.namedType? name = some o ∧ db.numberedType? o = some t ∧ t.shape = .enum id := by
  obtain ⟨o, hnamed, h⟩ := Option.bind_eq_some_iff.mp h
  obtain ⟨t, ht, h⟩ := Option.bind_eq_some_iff.mp h
  refine ⟨o, t, hnamed, ht, ?_⟩
  split at h <;> cases h
  assumption

/-! ## What is said of enumerations -/

/-- The type is an enumeration that has just the constants. -/
def EnumOf (db : Database) (o : Ordinal) (ps : List (String × UInt64)) : Prop :=
  ∃ id d, db.enumDef? id = some d ∧ d.ordinal = o ∧
    (Listing.ofEnum d).agrees (.complete ps) = .ok true

/-- The name belongs to something complete that is no enumeration of the constants. -/
def BarsEnum (db : Database) (ps : List (String × UInt64)) (name : String) : Prop :=
  ∃ o t, db.namedType? name = some o ∧ db.numberedType? o = some t ∧ t.shape ≠ .incomplete ∧
    ∀ id, t.shape = .enum id → ∃ d, db.enumDef? id = some d ∧
      (Listing.ofEnum d).agrees (.complete ps) ≠ .ok true

/-- The first enumeration that defines the constant has the type. -/
def LeadsTo (db : Database) (c : String) (o : Ordinal) : Prop :=
  ∃ id d, db.enumWithConstant? c = some id ∧ db.enumDef? id = some d ∧ d.ordinal = o

/-- The first enumeration that defines the constant has not just the constants of the list. -/
def Misleads (db : Database) (c : String) (ps : List (String × UInt64)) : Prop :=
  ∃ id d, db.enumWithConstant? c = some id ∧ db.enumDef? id = some d ∧
    (Listing.ofEnum d).agrees (.complete ps) ≠ .ok true

theorem Retains.enumOf (h : Retains db db') (ho : db.EnumOf o ps) : db'.EnumOf o ps := by
  obtain ⟨id, d, hd, ho, hagrees⟩ := ho
  exact ⟨id, d, h.enums hd, ho, hagrees⟩

theorem Retains.barsEnum (h : Retains db db') (he : Extends db db') {name : String}
    (hb : db.BarsEnum ps name) : db'.BarsEnum ps name := by
  obtain ⟨o, t, hnamed, ht, hcomplete, hother⟩ := hb
  refine ⟨o, t, he.named hnamed, he.type_eq ht hcomplete, hcomplete, fun id hshape => ?_⟩
  obtain ⟨d, hd, hagrees⟩ := hother id hshape
  exact ⟨d, h.enums hd, hagrees⟩

theorem Retains.leadsTo (h : Retains db db') {c : String} (hl : db.LeadsTo c o) :
    db'.LeadsTo c o := by
  obtain ⟨id, d, hfind, hd, ho⟩ := hl
  exact ⟨id, d, h.enumWithConstant? hfind, h.enums hd, ho⟩

theorem Retains.misleads (h : Retains db db') {c : String} (hm : db.Misleads c ps) :
    db'.Misleads c ps := by
  obtain ⟨id, d, hfind, hd, hagrees⟩ := hm
  exact ⟨id, d, h.enumWithConstant? hfind, h.enums hd, hagrees⟩

/-- An enumeration of the constants has no name that is barred for them. -/
theorem BarsEnum.not_enumOf (hc : db.Coherent) {name : String} (hb : db.BarsEnum ps name)
    (hnamed : db.namedType? name = some o) : ¬ db.EnumOf o ps := by
  rintro ⟨id, d, hd, rfl, hagrees⟩
  obtain ⟨o', t, hnamed', ht, -, hother⟩ := hb
  rw [hnamed] at hnamed'
  cases hnamed'
  rw [hc.enums hd] at ht
  cases ht
  obtain ⟨d', hd', hnot⟩ := hother id rfl
  rw [hd] at hd'
  cases hd'
  exact hnot hagrees

theorem Coherent.enum_eq (hc : db.Coherent) {id id' : EnumId} {d d' : EnumDef}
    (hd : db.enumDef? id = some d) (hd' : db.enumDef? id' = some d') (ho : d.ordinal = d'.ordinal) :
    id = id' := by
  have ht := hc.enums hd
  rw [ho, hc.enums hd'] at ht
  simp only [Option.some.injEq, NamedType.mk.injEq, TypeShape.enum.injEq] at ht
  exact ht.2.symm

end DebugSymbols.Database
