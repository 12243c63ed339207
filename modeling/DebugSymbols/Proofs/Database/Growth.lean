import DebugSymbols.Database.Host
import Mathlib.Data.List.Nodup

/-!
How the types of a database grow.  `Extends` says that what was known stays known, apart from
incomplete types that get completed, and `Coherent` that a structure, union or enumeration and
its named type refer to each other.  Every call keeps a database coherent and extends it.
-/

namespace DebugSymbols

/-- The type is a structure, a union or an enumeration. -/
def TypeShape.IsDefinition : TypeShape → Prop
  | struct _ | union _ | enum _ => True
  | _ => False

/-- The shape of the type behind which the structure or union stands. -/
def StructDef.shape (d : StructDef) (id : StructId) : TypeShape :=
  if d.isUnion then .union id else .struct id

theorem StructDef.isDefinition_shape (d : StructDef) (id : StructId) :
    (d.shape id).IsDefinition := by
  unfold shape
  split <;> trivial

/-- What a type can become: itself, or the definition that completes it. -/
structure NamedType.Becomes (t t' : NamedType) : Prop where
  name : t'.name = t.name
  shape : t'.shape = t.shape ∨ t.shape = .incomplete ∧ t'.shape.IsDefinition

theorem NamedType.Becomes.refl (t : NamedType) : t.Becomes t := ⟨rfl, .inl rfl⟩

theorem NamedType.Becomes.eq {t t' : NamedType} (h : t.Becomes t') (hs : t.shape ≠ .incomplete) :
    t' = t := by
  obtain ⟨hname, hshape | ⟨hi, -⟩⟩ := h
  · cases t
    cases t'
    simp_all
  · exact absurd hi hs

theorem NamedType.Becomes.trans {t t' t'' : NamedType} (h : t.Becomes t') (h' : t'.Becomes t'') :
    t.Becomes t'' := by
  refine ⟨h'.name.trans h.name, ?_⟩
  rcases h.shape with heq | ⟨hi, hd⟩
  · rw [← heq]
    exact h'.shape
  · refine .inr ⟨hi, ?_⟩
    rcases h'.shape with heq' | ⟨hi', -⟩
    · rwa [heq']
    · rw [hi'] at hd
      exact hd.elim

namespace Database

/-! ## Extension -/

/-- What the first database knows about types, the second knows as well. -/
structure Extends (db db' : Database) : Prop where
  pointerSize : db'.pointerSize = db.pointerSize
  types : ∀ {o t}, db.numberedType? o = some t → ∃ t', db'.numberedType? o = some t' ∧ t.Becomes t'
  named : ∀ {name o}, db.namedType? name = some o → db'.namedType? name = some o
  structs : ∀ {id d}, db.structDef? id = some d →
    ∃ members, db'.structDef? id = some { d with members } ∧ d.members ⊆ members
  enums : ∀ {id d}, db.enumDef? id = some d →
    ∃ constants, db'.enumDef? id = some { d with constants }

theorem Extends.refl (db : Database) : Extends db db where
  pointerSize := rfl
  types h := ⟨_, h, .refl _⟩
  named := id
  structs h := ⟨_, h, List.Subset.refl _⟩
  enums h := ⟨_, h⟩

theorem Extends.trans {db db' db'' : Database} (h : Extends db db') (h' : Extends db' db'') :
    Extends db db'' where
  pointerSize := h'.pointerSize.trans h.pointerSize
  types ht := by
    obtain ⟨t', ht', hb⟩ := h.types ht
    obtain ⟨t'', ht'', hb'⟩ := h'.types ht'
    exact ⟨t'', ht'', hb.trans hb'⟩
  named hn := h'.named (h.named hn)
  structs hd := by
    obtain ⟨members, hd', hsub⟩ := h.structs hd
    obtain ⟨members', hd'', hsub'⟩ := h'.structs hd'
    exact ⟨members', hd'', List.Subset.trans hsub hsub'⟩
  enums hd := by
    obtain ⟨constants, hd'⟩ := h.enums hd
    obtain ⟨constants', hd''⟩ := h'.enums hd'
    exact ⟨constants', hd''⟩

/-- A type that is not incomplete stays what it is. -/
theorem Extends.type_eq {db db' : Database} (h : Extends db db') {o : Ordinal} {t : NamedType}
    (ht : db.numberedType? o = some t) (hs : t.shape ≠ .incomplete) :
    db'.numberedType? o = some t := by
  obtain ⟨t', ht', hb⟩ := h.types ht
  rw [ht', hb.eq hs]

/-- No type becomes another name for something. -/
theorem Extends.typedef_eq {db db' : Database} (h : Extends db db') {o : Ordinal} {t : NamedType}
    {name target : String} (ht : db.numberedType? o = some t)
    (ht' : db'.numberedType? o = some ⟨name, .typedef target⟩) : t = ⟨name, .typedef target⟩ := by
  obtain ⟨t', hget, hbecomes⟩ := h.types ht
  rw [ht'] at hget
  cases hget
  rcases hbecomes.shape with heq | ⟨-, hdefinition⟩
  · exact (hbecomes.eq (by rw [← heq]; nofun)).symm
  · exact hdefinition.elim

theorem Extends.isSome_named {db db' : Database} (h : Extends db db') {name : String}
    (hn : (db.namedType? name).isSome) : (db'.namedType? name).isSome := by
  obtain ⟨o, ho⟩ := Option.isSome_iff_exists.mp hn
  rw [h.named ho]
  rfl

/-! ## Coherence -/

/-- The names of all types. -/
def typeNames (db : Database) : List String := db.types.toList.map (·.name)

/-- Definitions and their types refer to each other, and names tell types apart. -/
structure Coherent (db : Database) : Prop where
  structs : ∀ {id d}, db.structDef? id = some d →
    db.numberedType? d.ordinal = some ⟨d.name, d.shape id⟩
  enums : ∀ {id d}, db.enumDef? id = some d → db.numberedType? d.ordinal = some ⟨d.name, .enum id⟩
  names : db.typeNames.Nodup

theorem coherent_empty (pointerSize : UInt64) : Coherent (empty pointerSize) where
  structs h := by simp [structDef?, empty] at h
  enums h := by simp [enumDef?, empty] at h
  names := .nil

/-- No other structure has the type of this one. -/
theorem Coherent.struct_eq {db : Database} (h : Coherent db) {id id' : StructId} {d d' : StructDef}
    (hd : db.structDef? id = some d) (hd' : db.structDef? id' = some d')
    (ho : d.ordinal = d'.ordinal) : id = id' := by
  have ht := h.structs hd
  rw [ho, h.structs hd'] at ht
  simp only [Option.some.injEq, NamedType.mk.injEq, StructDef.shape] at ht
  obtain ⟨-, ht⟩ := ht
  split at ht <;> split at ht <;> cases ht <;> rfl

/-- Whatever is called a structure, a union or an enumeration belongs to one. -/
structure Backed (db : Database) : Prop where
  structs : ∀ {o t id}, db.numberedType? o = some t → t.shape = .struct id ∨ t.shape = .union id →
    ∃ d, db.structDef? id = some d ∧ d.ordinal = o
  enums : ∀ {o t id}, db.numberedType? o = some t → t.shape = .enum id →
    ∃ d, db.enumDef? id = some d ∧ d.ordinal = o

theorem numberedType?_empty (pointerSize : UInt64) (o : Ordinal) :
    (empty pointerSize).numberedType? o = none := by
  obtain ⟨_ | k⟩ := o <;> rfl

theorem backed_empty (pointerSize : UInt64) : Backed (empty pointerSize) := by
  refine ⟨fun hget => ?_, fun hget => ?_⟩
  · rw [numberedType?_empty] at hget
    cases hget
  · rw [numberedType?_empty] at hget
    cases hget

/-- Definitions that stay stay backed, as long as no others come up. -/
theorem Backed.of_types {db db' : Database} (h : Backed db) (he : Extends db db')
    (ht : ∀ {o t}, db'.numberedType? o = some t → t.shape.IsDefinition →
      db.numberedType? o = some t) : Backed db' where
  structs {o t id} hget hshape := by
    have hdef : t.shape.IsDefinition := by
      rcases hshape with hshape | hshape <;> rw [hshape] <;> trivial
    obtain ⟨d, hd, rfl⟩ := h.structs (ht hget hdef) hshape
    obtain ⟨members, hd', -⟩ := he.structs hd
    exact ⟨_, hd', rfl⟩
  enums {o t id} hget hshape := by
    obtain ⟨d, hd, rfl⟩ := h.enums (ht hget (by rw [hshape]; trivial)) hshape
    obtain ⟨constants, hd'⟩ := he.enums hd
    exact ⟨_, hd', rfl⟩

/-! ## Looking up -/

theorem namedType?_eq (db : Database) (name : String) :
    db.namedType? name = (db.typeNames.findIdx? (· = name)).map fun k => ⟨k + 1⟩ := by
  unfold namedType?
  have harray : db.types.toList.toArray = db.types := Array.toArray_toList
  rw [← harray]
  simp [typeNames, List.findIdx?_map, Function.comp_def, -Array.toArray_toList]

theorem namedType?_congr {db db' : Database} (h : db'.typeNames = db.typeNames) (name : String) :
    db'.namedType? name = db.namedType? name := by
  rw [namedType?_eq, namedType?_eq, h]

theorem namedType?_eq_none {db : Database} {name : String} :
    db.namedType? name = none ↔ name ∉ db.typeNames := by
  simp only [namedType?_eq, Option.map_eq_none_iff, List.findIdx?_eq_none_iff,
    decide_eq_false_iff_not]
  exact ⟨fun h hm => h _ hm rfl, fun h x hx heq => h (heq ▸ hx)⟩

/-- The type that is found by a name has it. -/
theorem numberedType?_of_named {db : Database} {name : String} {o : Ordinal}
    (h : db.namedType? name = some o) : ∃ shape, db.numberedType? o = some ⟨name, shape⟩ := by
  obtain ⟨k, hk, rfl⟩ := Option.map_eq_some_iff.mp h
  obtain ⟨hlt, hname, -⟩ := Array.findIdx?_eq_some_iff_getElem.mp hk
  refine ⟨db.types[k].shape, ?_⟩
  simp only [numberedType?, Array.getElem?_eq_getElem hlt, Option.some.injEq]
  simp only [decide_eq_true_eq] at hname
  rw [← hname]

/-- Where names tell types apart, a type is found by its name. -/
theorem Coherent.named {db : Database} (h : Coherent db) {o : Ordinal} {t : NamedType}
    (ht : db.numberedType? o = some t) : db.namedType? t.name = some o := by
  obtain ⟨_ | k⟩ := o
  · cases ht
  · have hget : db.types.toList[k]? = some t := by simpa [numberedType?] using ht
    have hname : db.typeNames[k]? = some t.name := by simp [typeNames, hget]
    obtain ⟨hlt, heq⟩ := List.getElem?_eq_some_iff.mp hname
    rw [namedType?_eq]
    have : db.typeNames.findIdx? (· = t.name) = some k := by
      rw [List.findIdx?_eq_some_iff_getElem]
      refine ⟨hlt, by simpa using heq, fun j hj hsame => ?_⟩
      simp only [decide_eq_true_eq] at hsame
      exact absurd (h.names.getElem_inj_iff.mp (hsame.trans heq.symm)) (Nat.ne_of_lt hj)
    rw [this]
    rfl

theorem numberedType?_congr {db db' : Database} (h : db'.types = db.types) (o : Ordinal) :
    db'.numberedType? o = db.numberedType? o := by
  simp only [numberedType?, h]

theorem Coherent.of_extends {db db' : Database} (h : Coherent db) (he : Extends db db')
    (hs : db'.structs = db.structs) (hen : db'.enums = db.enums) (hn : db'.typeNames.Nodup) :
    Coherent db' where
  structs {id d} hd := by
    have hd' : db.structDef? id = some d := by rwa [structDef?, ← hs]
    refine he.type_eq (h.structs hd') fun hi => ?_
    have := d.isDefinition_shape id
    rw [show d.shape id = .incomplete from hi] at this
    exact this
  enums {id d} hd := by
    have hd' : db.enumDef? id = some d := by rwa [enumDef?, ← hen]
    exact he.type_eq (h.enums hd') (by simp)
  names := hn

/-! ## Named types -/

theorem numberedType?_push {db db' : Database} {t : NamedType}
    (h : db'.types = db.types.push t) (o : Ordinal) :
    db'.numberedType? o =
      if o.val = db.types.size + 1 then some t else db.numberedType? o := by
  obtain ⟨_ | k⟩ := o
  · rfl
  · simp [numberedType?, h, Array.getElem?_push]

theorem typeNames_push {db db' : Database} {t : NamedType} (h : db'.types = db.types.push t) :
    db'.typeNames = db.typeNames ++ [t.name] := by
  simp [typeNames, h]

theorem numberedType?_lt {db : Database} {o : Ordinal} {t : NamedType}
    (h : db.numberedType? o = some t) : o.val < db.types.size + 1 := by
  obtain ⟨_ | k⟩ := o
  · cases h
  · have := (Array.getElem?_eq_some_iff.mp h).1
    simpa using this

/-- A type of a new name is a harmless addition. -/
theorem extends_push {db db' : Database} {t : NamedType} (ht : db'.types = db.types.push t)
    (hp : db'.pointerSize = db.pointerSize) (hs : db'.structs = db.structs)
    (he : db'.enums = db.enums) : Extends db db' where
  pointerSize := hp
  types {o u} hu := by
    refine ⟨u, ?_, .refl u⟩
    rw [numberedType?_push ht, if_neg (Nat.ne_of_lt (numberedType?_lt hu)), hu]
  named {name o} hn := by
    rw [namedType?_eq] at hn ⊢
    obtain ⟨k, hk, rfl⟩ := Option.map_eq_some_iff.mp hn
    rw [typeNames_push ht, List.findIdx?_append, hk]
    rfl
  structs hd := ⟨_, by rwa [structDef?, hs], List.Subset.refl _⟩
  enums hd := ⟨_, by rwa [enumDef?, he]⟩

theorem nodup_push {db db' : Database} {t : NamedType} (h : db.typeNames.Nodup)
    (ht : db'.types = db.types.push t) (hfresh : t.name ∉ db.typeNames) :
    db'.typeNames.Nodup := by
  rw [typeNames_push ht]
  refine List.nodup_append.mpr ⟨h, List.nodup_singleton _, fun a ha b hb heq => ?_⟩
  rw [List.mem_singleton.mp hb] at heq
  exact hfresh (heq ▸ ha)

theorem addNamedType?_eq_some {db db' : Database} {name : String} {shape : TypeShape} {o : Ordinal}
    (h : db.addNamedType? name shape = some (o, db')) :
    db.namedType? name = none ∧ o = ⟨db.types.size + 1⟩ ∧
      db' = { db with types := db.types.push ⟨name, shape⟩ } := by
  unfold addNamedType? at h
  split at h
  · cases h
  · cases h
    simp_all

theorem extends_addNamedType? {db db' : Database} {name : String} {shape : TypeShape}
    {o : Ordinal} (h : db.addNamedType? name shape = some (o, db')) : Extends db db' := by
  obtain ⟨-, -, rfl⟩ := addNamedType?_eq_some h
  exact extends_push rfl rfl rfl rfl

theorem Coherent.addNamedType? {db db' : Database} {name : String} {shape : TypeShape}
    {o : Ordinal} (hc : Coherent db) (h : db.addNamedType? name shape = some (o, db')) :
    Coherent db' := by
  have he := extends_addNamedType? h
  obtain ⟨hfresh, -, rfl⟩ := addNamedType?_eq_some h
  exact hc.of_extends he rfl rfl (nodup_push hc.names rfl (namedType?_eq_none.mp hfresh))

/-- A type that is no definition needs nothing behind it. -/
theorem Backed.addNamedType? {db db' : Database} {name : String} {shape : TypeShape} {o : Ordinal}
    (hb : Backed db) (hshape : ¬ shape.IsDefinition)
    (h : db.addNamedType? name shape = some (o, db')) : Backed db' := by
  have he := extends_addNamedType? h
  obtain ⟨-, rfl, rfl⟩ := addNamedType?_eq_some h
  refine hb.of_types he fun {o' t} hget hdef => ?_
  rw [numberedType?_push rfl] at hget
  split at hget
  · cases hget
    exact absurd hdef hshape
  · exact hget

theorem numberedType?_addNamedType? {db db' : Database} {name : String} {shape : TypeShape}
    {o : Ordinal} (h : db.addNamedType? name shape = some (o, db')) :
    db'.numberedType? o = some ⟨name, shape⟩ := by
  obtain ⟨-, rfl, rfl⟩ := addNamedType?_eq_some h
  rw [numberedType?_push rfl, if_pos rfl]

/-! ## Reserving a type for a definition -/

theorem anonymousName_inj {kind : Kind} {m n : Nat}
    (h : anonymousName kind m = anonymousName kind n) : m = n := by
  have hnumber : Nat.repr m = Nat.repr n := (String.append_right_inj _).mp h
  have hdigits : Nat.toDigits 10 m = Nat.toDigits 10 n := by
    simpa [Nat.repr] using congrArg String.toList hnumber
  have hten : 1 < 10 ∧ 10 ≤ 10 := by decide
  rw [← Nat.ofDigitChars_toDigits (n := m) hten.1 hten.2, hdigits,
    Nat.ofDigitChars_toDigits hten.1 hten.2]

theorem lt_nextFree (kind : Kind) (taken : List String) (last : Nat) :
    last < nextFree kind taken last := by
  fun_induction nextFree kind taken last with
  | case1 taken last hmem ih => omega
  | case2 taken last hfree => omega

theorem nextFree_not_mem (kind : Kind) (taken : List String) (last : Nat) :
    anonymousName kind (nextFree kind taken last) ∉ taken := by
  fun_induction nextFree kind taken last with
  | case1 taken last hmem ih =>
    intro hfound
    refine ih ((List.mem_erase_of_ne fun heq => ?_).mpr hfound)
    have := lt_nextFree kind (taken.erase (anonymousName kind (last + 1))) (last + 1)
    have := anonymousName_inj heq
    omega
  | case2 taken last hfree => exact hfree

theorem typeNames_setShape (db : Database) (o : Ordinal) (shape : TypeShape) :
    (db.setShape o shape).typeNames = db.typeNames := by
  apply List.ext_getElem?
  intro k
  simp only [typeNames, setShape, List.getElem?_map, Array.getElem?_toList, Array.getElem?_modify]
  split
  · cases db.types[k]? <;> rfl
  · rfl

theorem numberedType?_setShape {db : Database} {o : Ordinal} {t : NamedType}
    (ht : db.numberedType? o = some t) (shape : TypeShape) (o' : Ordinal) :
    (db.setShape o shape).numberedType? o' =
      if o' = o then some ⟨t.name, shape⟩ else db.numberedType? o' := by
  obtain ⟨_ | k⟩ := o
  · cases ht
  · obtain ⟨_ | j⟩ := o'
    · rfl
    · simp only [numberedType?] at ht
      simp only [numberedType?, setShape, Nat.add_sub_cancel, Array.getElem?_modify,
        Ordinal.mk.injEq, Nat.add_right_cancel_iff]
      by_cases hj : j = k
      · subst hj
        simp [ht]
      · simp [hj, Ne.symm hj]

/-- A definition gets the name that is stated for it, or else a made up one. -/
def Names : Option String → String → Prop
  | some stated, taken => taken = stated
  | none, taken => ∃ kind n, taken = anonymousName kind n

/-- What reserving a type for a definition comes to. -/
structure Reserves (db : Database) (name : Option String) (shape : TypeShape) (taken : String)
    (o : Ordinal) (db' : Database) : Prop where
  extends_ : Extends db db'
  nodup : db'.typeNames.Nodup
  types : ∀ o', db'.numberedType? o' =
    if o' = o then some ⟨taken, shape⟩ else db.numberedType? o'
  names : Names name taken
  structs : db'.structs = db.structs
  enums : db'.enums = db.enums

theorem Reserves.type {db db' : Database} {name : Option String} {shape : TypeShape}
    {taken : String} {o : Ordinal} (h : Reserves db name shape taken o db') :
    db'.numberedType? o = some ⟨taken, shape⟩ := by
  rw [h.types, if_pos rfl]

theorem numberedType?_push_next {db db' : Database} {t : NamedType}
    (h : db'.types = db.types.push t) (o : Ordinal) :
    db'.numberedType? o =
      if o = ⟨db.types.size + 1⟩ then some t else db.numberedType? o := by
  obtain ⟨n⟩ := o
  rw [numberedType?_push h]
  simp only [Ordinal.mk.injEq]

/-- The ways to reserve a type: under a new name that is made up, under a stated name that is free,
or by completing the incomplete type that has the stated name. -/
inductive Reservation (db : Database) (kind : Kind) (shape : TypeShape) :
    Option String → String → Ordinal → Database → Prop
  | made {n : Nat} : anonymousName kind n ∉ db.typeNames →
      Reservation db kind shape none (anonymousName kind n) ⟨db.types.size + 1⟩
        { db with types := db.types.push ⟨anonymousName kind n, shape⟩, lastAnonymous := n }
  | added {name : String} {o : Ordinal} {db' : Database} :
      db.addNamedType? name shape = some (o, db') →
      Reservation db kind shape (some name) name o db'
  | completed {name : String} {o : Ordinal} : db.numberedType? o = some ⟨name, .incomplete⟩ →
      Reservation db kind shape (some name) name o (db.setShape o shape)

theorem reservation {db db' : Database} {name : Option String} {kind : Kind} {shape : TypeShape}
    {taken : String} {o : Ordinal} (h : db.reserve? name kind shape = some (taken, o, db')) :
    db.Reservation kind shape name taken o db' := by
  cases name with
  | none =>
    cases h
    exact .made (nextFree_not_mem _ _ _)
  | some name =>
    simp only [reserve?] at h
    split at h
    · obtain ⟨⟨o', db''⟩, hadd, heq⟩ := Option.map_eq_some_iff.mp h
      cases heq
      exact .added hadd
    · rename_i o' hnamed
      split at h
      · rename_i name' ht
        cases h
        obtain ⟨shape', ht'⟩ := numberedType?_of_named hnamed
        rw [ht] at ht'
        cases ht'
        exact .completed ht
      · cases h

/-- A stated name under which nothing can be reserved belongs to something complete. -/
theorem taken_of_reserve? {db : Database} {name : String} {kind : Kind} {shape : TypeShape}
    (h : db.reserve? (some name) kind shape = none) :
    ∃ o t, db.namedType? name = some o ∧ db.numberedType? o = some t ∧ t.shape ≠ .incomplete := by
  cases hnamed : db.namedType? name with
  | none => simp [reserve?, hnamed, addNamedType?] at h
  | some o =>
    obtain ⟨shape', ht⟩ := numberedType?_of_named hnamed
    refine ⟨o, ⟨name, shape'⟩, rfl, ht, ?_⟩
    rintro rfl
    simp [reserve?, hnamed, ht] at h

theorem reserves {db db' : Database} {name : Option String} {kind : Kind} {shape : TypeShape}
    {taken : String} {o : Ordinal} (hc : Coherent db) (hd : shape.IsDefinition)
    (h : db.reserve? name kind shape = some (taken, o, db')) :
    Reserves db name shape taken o db' := by
  cases reservation h with
  | made hfresh =>
    exact ⟨extends_push rfl rfl rfl rfl, nodup_push hc.names rfl hfresh,
      numberedType?_push_next rfl, ⟨_, _, rfl⟩, rfl, rfl⟩
  | added hadd =>
    have he := extends_addNamedType? hadd
    have hnames := (hc.addNamedType? hadd).names
    obtain ⟨-, rfl, rfl⟩ := addNamedType?_eq_some hadd
    exact ⟨he, hnames, numberedType?_push_next rfl, rfl, rfl, rfl⟩
  | completed ht =>
    refine ⟨⟨rfl, ?_, ?_, fun hd => ⟨_, hd, List.Subset.refl _⟩, fun hd => ⟨_, hd⟩⟩, ?_, ?_,
      rfl, rfl, rfl⟩
    · intro o' u hu
      rw [numberedType?_setShape ht]
      split
      · rename_i heq
        rw [heq, ht] at hu
        cases hu
        exact ⟨_, rfl, rfl, .inr ⟨rfl, hd⟩⟩
      · exact ⟨u, hu, .refl u⟩
    · intro name' o' hn
      rwa [namedType?_congr (typeNames_setShape db o shape)]
    · rw [typeNames_setShape]
      exact hc.names
    · exact numberedType?_setShape ht shape

/-! ## Definitions -/

/-- What adding a structure or union comes to: it is the next one, and has no members. -/
structure AddsStruct (db : Database) (name : Option String) (isUnion : Bool) (id : StructId)
    (d : StructDef) (db' : Database) : Prop where
  extends_ : Extends db db'
  coherent : Coherent db'
  types : ∀ o, db'.numberedType? o =
    if o = d.ordinal then some ⟨d.name, d.shape id⟩ else db.numberedType? o
  id : id = ⟨db.structs.size⟩
  structs : db'.structs = db.structs.push d
  enums : db'.enums = db.enums
  isUnion : d.isUnion = isUnion
  members : d.members = []
  names : Names name d.name

theorem AddsStruct.structDef? {db db' : Database} {name : Option String} {isUnion : Bool}
    {id : StructId} {d : StructDef} (h : AddsStruct db name isUnion id d db') (id' : StructId) :
    db'.structDef? id' = if id' = id then some d else db.structDef? id' := by
  obtain ⟨k⟩ := id'
  rw [h.id]
  simp [Database.structDef?, h.structs, Array.getElem?_push]

theorem addStruct?_eq (db : Database) (name : Option String) (isUnion : Bool) :
    db.addStruct? name isUnion =
      (db.reserve? name (if isUnion then .union else .struct)
        (if isUnion then .union ⟨db.structs.size⟩ else .struct ⟨db.structs.size⟩)).map
        fun (taken, o, db') =>
          (⟨db.structs.size⟩,
            { db' with structs := db'.structs.push ⟨taken, isUnion, o, []⟩ }) := by
  cases isUnion with
  | false =>
    simp only [addStruct?, Bool.false_eq_true, if_false]
    cases db.reserve? name .struct (.struct ⟨db.structs.size⟩) <;> rfl
  | true =>
    simp only [addStruct?, if_true]
    cases db.reserve? name .union (.union ⟨db.structs.size⟩) <;> rfl

theorem extends_pushStruct (db : Database) (d : StructDef) :
    Extends db { db with structs := db.structs.push d } := by
  refine ⟨rfl, fun ht => ⟨_, ht, .refl _⟩, id,
    fun {id d'} hd => ⟨d'.members, ?_, List.Subset.refl _⟩, fun hd => ⟨_, hd⟩⟩
  have hlt : id.val < db.structs.size := (Array.getElem?_eq_some_iff.mp hd).1
  rw [Database.structDef?, Array.getElem?_push, if_neg (Nat.ne_of_lt hlt)]
  exact hd

theorem addsStruct {db db' : Database} {name : Option String} {isUnion : Bool} {id : StructId}
    (hc : Coherent db) (h : db.addStruct? name isUnion = some (id, db')) :
    ∃ d, AddsStruct db name isUnion id d db' := by
  rw [addStruct?_eq] at h
  obtain ⟨⟨taken, o, db₁⟩, hreserve, hpush⟩ := Option.map_eq_some_iff.mp h
  cases hpush
  have hr : Reserves db name (if isUnion then .union ⟨db.structs.size⟩
      else .struct ⟨db.structs.size⟩) taken o db₁ := by
    cases isUnion with
    | false => exact reserves hc trivial hreserve
    | true => exact reserves hc trivial hreserve
  let d : StructDef := ⟨taken, isUnion, o, []⟩
  have hc₁ := hc.of_extends hr.extends_ hr.structs hr.enums hr.nodup
  refine ⟨d, hr.extends_.trans (extends_pushStruct db₁ d),
    ⟨fun {id d'} hd => ?_, hc₁.enums, hr.nodup⟩, hr.types, rfl, ?_, hr.enums, rfl, rfl, hr.names⟩
  · rw [Database.structDef?, Array.getElem?_push] at hd
    split at hd
    · rename_i hid
      cases hd
      have hid' : id = ⟨db.structs.size⟩ := by
        rw [← hr.structs, ← hid]
      change db₁.numberedType? o = some ⟨taken, if isUnion then .union id else .struct id⟩
      rw [hid']
      exact hr.type
    · exact hc₁.structs hd
  · change db₁.structs.push d = db.structs.push d
    rw [hr.structs]

theorem AddsStruct.backed {db db' : Database} {name : Option String} {isUnion : Bool}
    {id : StructId} {d : StructDef} (h : AddsStruct db name isUnion id d db') (hb : Backed db) :
    Backed db' where
  structs {o t id'} hget hshape := by
    rw [h.types] at hget
    split at hget
    · rename_i ho
      cases hget
      refine ⟨d, ?_, ho.symm⟩
      rw [h.structDef?, if_pos]
      unfold StructDef.shape at hshape
      split at hshape <;> rcases hshape with hshape | hshape <;> cases hshape <;> rfl
    · obtain ⟨d', hd', rfl⟩ := hb.structs hget hshape
      obtain ⟨members, hd'', -⟩ := h.extends_.structs hd'
      exact ⟨_, hd'', rfl⟩
  enums {o t id'} hget hshape := by
    rw [h.types] at hget
    split at hget
    · cases hget
      unfold StructDef.shape at hshape
      split at hshape <;> cases hshape
    · obtain ⟨d', hd', rfl⟩ := hb.enums hget hshape
      obtain ⟨constants, hd''⟩ := h.extends_.enums hd'
      exact ⟨_, hd'', rfl⟩

/-- What adding an enumeration comes to: it is the next one, and has no constants. -/
structure AddsEnum (db : Database) (name : Option String) (id : EnumId) (d : EnumDef)
    (db' : Database) : Prop where
  extends_ : Extends db db'
  coherent : Coherent db'
  types : ∀ o, db'.numberedType? o =
    if o = d.ordinal then some ⟨d.name, .enum id⟩ else db.numberedType? o
  id : id = ⟨db.enums.size⟩
  enums : db'.enums = db.enums.push d
  constants : d.constants = []
  names : Names name d.name
  /-- A type that was there is completed. -/
  vacant : ∀ {t}, db.numberedType? d.ordinal = some t → t.shape = .incomplete
  /-- A made up name is that of a type which was not there. -/
  fresh : name = none → db.numberedType? d.ordinal = none

theorem AddsEnum.enumDef? {db db' : Database} {name : Option String} {id : EnumId} {d : EnumDef}
    (h : AddsEnum db name id d db') (id' : EnumId) :
    db'.enumDef? id' = if id' = id then some d else db.enumDef? id' := by
  obtain ⟨k⟩ := id'
  rw [h.id]
  simp [Database.enumDef?, h.enums, Array.getElem?_push]

theorem AddsEnum.unknown {db db' : Database} {name : Option String} {id : EnumId} {d : EnumDef}
    (h : AddsEnum db name id d db') : db.enumDef? id = none := by
  rw [h.id]
  simp [Database.enumDef?]

theorem numberedType?_next (db : Database) : db.numberedType? ⟨db.types.size + 1⟩ = none := by
  simp [numberedType?]

/-- Only what is incomplete, or is not there at all, can be reserved. -/
theorem vacant_of_reserve? {db db' : Database} {name : Option String} {kind : Kind}
    {shape : TypeShape} {taken : String} {o : Ordinal}
    (h : db.reserve? name kind shape = some (taken, o, db')) {t : NamedType}
    (ht : db.numberedType? o = some t) : t.shape = .incomplete := by
  have hold : o ≠ ⟨db.types.size + 1⟩ := by
    rintro rfl
    rw [numberedType?_next] at ht
    cases ht
  cases reservation h with
  | made => exact absurd rfl hold
  | added hadd => exact absurd (addNamedType?_eq_some hadd).2.1 hold
  | completed hincomplete =>
    rw [hincomplete] at ht
    cases ht
    rfl

theorem extends_pushEnum (db : Database) (d : EnumDef) :
    Extends db { db with enums := db.enums.push d } := by
  refine ⟨rfl, fun ht => ⟨_, ht, .refl _⟩, id, fun hd => ⟨_, hd, List.Subset.refl _⟩,
    fun {id d'} hd => ⟨d'.constants, ?_⟩⟩
  have hlt : id.val < db.enums.size := (Array.getElem?_eq_some_iff.mp hd).1
  rw [Database.enumDef?, Array.getElem?_push, if_neg (Nat.ne_of_lt hlt)]
  exact hd

theorem addsEnum {db db' : Database} {name : Option String} {width : UInt8} {id : EnumId}
    (hc : Coherent db) (h : db.addEnum? name width = some (id, db')) :
    ∃ d, AddsEnum db name id d db' := by
  obtain ⟨⟨taken, o, db₁⟩, hreserve, hpush⟩ := Option.bind_eq_some_iff.mp h
  cases hpush
  have hdefinition : (TypeShape.enum ⟨db.enums.size⟩).IsDefinition := trivial
  have hr := reserves hc hdefinition hreserve
  have hc₁ := hc.of_extends hr.extends_ hr.structs hr.enums hr.nodup
  refine ⟨⟨taken, width, o, []⟩, hr.extends_.trans (extends_pushEnum db₁ _),
    ⟨hc₁.structs, fun {id d'} hd => ?_, hr.nodup⟩, hr.types, rfl, by rw [← hr.enums], rfl,
    hr.names, fun ht => vacant_of_reserve? hreserve ht, ?_⟩
  · rw [Database.enumDef?, Array.getElem?_push] at hd
    split at hd
    · rename_i hid
      cases hd
      change db₁.numberedType? o = some ⟨taken, .enum id⟩
      rw [hr.type, ← hr.enums, ← hid]
    · exact hc₁.enums hd
  · rintro rfl
    cases hreserve
    exact db.numberedType?_next

theorem structs_addEnum? {db db' : Database} {name : Option String} {width : UInt8} {id : EnumId}
    (hc : Coherent db) (h : db.addEnum? name width = some (id, db')) :
    db'.structs = db.structs := by
  obtain ⟨⟨taken, o, db₁⟩, hreserve, hpush⟩ := Option.bind_eq_some_iff.mp h
  cases hpush
  have hdefinition : (TypeShape.enum ⟨db.enums.size⟩).IsDefinition := trivial
  exact (reserves hc hdefinition hreserve).structs

theorem AddsEnum.backed {db db' : Database} {name : Option String} {id : EnumId} {d : EnumDef}
    (h : AddsEnum db name id d db') (hb : Backed db) : Backed db' where
  structs {o t id'} hget hshape := by
    rw [h.types] at hget
    split at hget
    · cases hget
      rcases hshape with hshape | hshape <;> cases hshape
    · obtain ⟨d', hd', rfl⟩ := hb.structs hget hshape
      obtain ⟨members, hd'', -⟩ := h.extends_.structs hd'
      exact ⟨_, hd'', rfl⟩
  enums {o t id'} hget hshape := by
    rw [h.types] at hget
    split at hget
    · rename_i ho
      cases hget
      cases hshape
      exact ⟨d, by rw [h.enumDef?, if_pos rfl], ho.symm⟩
    · obtain ⟨d', hd', rfl⟩ := hb.enums hget hshape
      obtain ⟨constants, hd''⟩ := h.extends_.enums hd'
      exact ⟨_, hd'', rfl⟩

/-! ## Constants and members -/

/-- What adding a constant comes to: the enumeration gets it, unless it has one of that name. -/
structure AddsConstant (db : Database) (id : EnumId) (name : String) (value : UInt64) (d : EnumDef)
    (db' : Database) : Prop where
  known : db.enumDef? id = some d
  fresh : name ∉ d.constants.map (·.1)
  eq : db' = { db with
    enums := db.enums.modify id.val fun d =>
      { d with constants := d.constants ++ [(name, value)] } }

theorem addsConstant {db db' : Database} {id : EnumId} {name : String} {value : UInt64}
    (h : db.addEnumConstant? id name value = some db') :
    ∃ d, AddsConstant db id name value d db' := by
  obtain ⟨d, hd, h⟩ := Option.bind_eq_some_iff.mp h
  split at h
  · cases h
  · rename_i hfresh
    cases h
    exact ⟨d, hd, by simpa using hfresh, rfl⟩

theorem AddsConstant.enumDef? {db db' : Database} {id : EnumId} {name : String} {value : UInt64}
    {d : EnumDef} (h : AddsConstant db id name value d db') (id' : EnumId) :
    db'.enumDef? id' =
      if id' = id then some { d with constants := d.constants ++ [(name, value)] }
      else db.enumDef? id' := by
  have hd : db.enums[id.val]? = some d := h.known
  rw [h.eq]
  simp only [Database.enumDef?, Array.getElem?_modify]
  by_cases hid : id' = id
  · subst hid
    simp [hd]
  · have : id.val ≠ id'.val := fun heq => hid (by cases id; cases id'; simp_all)
    simp [hid, this]

theorem AddsConstant.extends {db db' : Database} {id : EnumId} {name : String} {value : UInt64}
    {d : EnumDef} (h : AddsConstant db id name value d db') : Extends db db' := by
  have hget := h.enumDef?
  refine ⟨by rw [h.eq], fun {o t} ht => ⟨t, ?_, .refl t⟩, fun {name o} hn => ?_,
    fun {id' d'} hd => ⟨d'.members, ?_, List.Subset.refl _⟩, fun {id' d'} hd => ?_⟩
  · rw [h.eq]
    exact ht
  · rw [h.eq]
    exact hn
  · rw [h.eq]
    exact hd
  · rw [hget]
    split
    · rename_i heq
      rw [heq, h.known] at hd
      cases hd
      exact ⟨_, rfl⟩
    · exact ⟨_, hd⟩

theorem AddsConstant.backed {db db' : Database} {id : EnumId} {name : String} {value : UInt64}
    {d : EnumDef} (h : AddsConstant db id name value d db') (hb : Backed db) : Backed db' := by
  refine hb.of_types h.extends fun hget _ => ?_
  rw [h.eq] at hget
  exact hget

theorem AddsConstant.coherent {db db' : Database} {id : EnumId} {name : String} {value : UInt64}
    {d : EnumDef} (h : AddsConstant db id name value d db') (hc : Coherent db) : Coherent db' := by
  have hget := h.enumDef?
  have htypes (o : Ordinal) : db'.numberedType? o = db.numberedType? o := by
    rw [h.eq]
    rfl
  refine ⟨fun {id' d'} hd => ?_, fun {id' d'} hd => ?_, ?_⟩
  · rw [htypes]
    rw [h.eq] at hd
    exact hc.structs hd
  · rw [htypes]
    rw [hget] at hd
    split at hd
    · rename_i heq
      cases hd
      have ht := hc.enums h.known
      rw [heq]
      exact ht
    · exact hc.enums hd
  · rw [h.eq]
    exact hc.names

/-- What adding a member comes to: the structure gets it, unless it has one of that name. -/
structure AddsMember (db : Database) (id : StructId) (m : Member) (d : StructDef)
    (db' : Database) : Prop where
  known : db.structDef? id = some d
  fresh : ∀ other ∈ d.members, other.name ≠ m.name
  eq : db' = { db with
    structs := db.structs.modify id.val fun d => { d with members := insertMember m d.members } }

theorem addsMember {db db' : Database} {id : StructId} {m : Member}
    (h : db.addStructMember? id m = some db') : ∃ d, AddsMember db id m d db' := by
  obtain ⟨d, hd, h⟩ := Option.bind_eq_some_iff.mp h
  split at h
  · cases h
  · rename_i hfresh
    cases h
    exact ⟨d, hd, by simpa using hfresh, rfl⟩

theorem mem_insertMember {m other : Member} {members : List Member} :
    other ∈ insertMember m members ↔ other = m ∨ other ∈ members := by
  have hsplit := List.takeWhile_append_dropWhile (p := (·.offset ≤ m.offset)) (l := members)
  rw [insertMember]
  constructor
  · intro hmem
    rcases List.mem_append.mp hmem with hmem | hmem
    · exact .inr ((List.takeWhile_subset _) hmem)
    · exact (List.mem_cons.mp hmem).imp id fun hmem => (List.dropWhile_subset _) hmem
  · rintro (rfl | hmem)
    · simp
    · rw [← hsplit] at hmem
      rcases List.mem_append.mp hmem with hmem | hmem
      · exact List.mem_append_left _ hmem
      · exact List.mem_append_right _ (List.mem_cons_of_mem _ hmem)

theorem subset_insertMember (m : Member) (members : List Member) :
    members ⊆ insertMember m members :=
  fun _ h => mem_insertMember.mpr (.inr h)

theorem AddsMember.structDef? {db db' : Database} {id : StructId} {m : Member} {d : StructDef}
    (h : AddsMember db id m d db') (id' : StructId) :
    db'.structDef? id' =
      if id' = id then some { d with members := insertMember m d.members }
      else db.structDef? id' := by
  have hd : db.structs[id.val]? = some d := h.known
  rw [h.eq]
  simp only [Database.structDef?, Array.getElem?_modify]
  by_cases hid : id' = id
  · subst hid
    simp [hd]
  · have : id.val ≠ id'.val := fun heq => hid (by cases id; cases id'; simp_all)
    simp [hid, this]

theorem AddsMember.extends {db db' : Database} {id : StructId} {m : Member} {d : StructDef}
    (h : AddsMember db id m d db') : Extends db db' := by
  have hget := h.structDef?
  refine ⟨by rw [h.eq], fun {o t} ht => ⟨t, ?_, .refl t⟩, fun {name o} hn => ?_,
    fun {id' d'} hd => ?_, fun {id' d'} hd => ⟨d'.constants, ?_⟩⟩
  · rw [h.eq]
    exact ht
  · rw [h.eq]
    exact hn
  · rw [hget]
    split
    · rename_i heq
      rw [heq, h.known] at hd
      cases hd
      exact ⟨_, rfl, subset_insertMember m d.members⟩
    · exact ⟨_, hd, List.Subset.refl _⟩
  · rw [h.eq]
    exact hd

theorem AddsMember.backed {db db' : Database} {id : StructId} {m : Member} {d : StructDef}
    (h : AddsMember db id m d db') (hb : Backed db) : Backed db' := by
  refine hb.of_types h.extends fun hget _ => ?_
  rw [h.eq] at hget
  exact hget

theorem AddsMember.coherent {db db' : Database} {id : StructId} {m : Member} {d : StructDef}
    (h : AddsMember db id m d db') (hc : Coherent db) : Coherent db' := by
  have hget := h.structDef?
  have htypes (o : Ordinal) : db'.numberedType? o = db.numberedType? o := by
    rw [h.eq]
    rfl
  refine ⟨fun {id' d'} hd => ?_, fun {id' d'} hd => ?_, ?_⟩
  · rw [hget] at hd
    split at hd
    · rename_i heq
      cases hd
      have ht := hc.structs h.known
      rw [htypes, heq]
      exact ht
    · rw [htypes]
      exact hc.structs hd
  · rw [htypes]
    rw [h.eq] at hd
    exact hc.enums hd
  · rw [h.eq]
    exact hc.names

end Database

end DebugSymbols
