import DebugSymbols.Proofs.Database.Growth

/-!
How sizes depend on members.  A size is looked up through qualifiers, arrays and other names
(`sizeSource?`), down to a type that has its own (`ownSize?`).  It may end at a structure or union
(`recordOf?`); only the members of that one matter.  What a size was when a structure had fewer
members is its size in the database without the others (`keeping`).
-/

namespace DebugSymbols

/-- A member that was added to a structure or union. -/
abbrev Addition := StructId × Member

namespace Database

/-! ## Definitions -/

/-- The ordinal of the type that a link refers to. -/
def linkOrdinal? (db : Database) : TypeLink → Option Ordinal
  | .enum id => (db.enumDef? id).map (·.ordinal)
  | .struct id => (db.structDef? id).map (·.ordinal)
  | .named o => some o

/-- The structure or union whose size a type gets in less than the given number of steps. -/
def recordWithin (db : Database) : Nat → Ordinal → Option StructId
  | 0, _ => none
  | steps + 1, ordinal => do
    match (← db.numberedType? ordinal).shape with
    | .const inner | .volatile inner | .array inner _ => db.recordWithin steps inner
    | .typedef target => (db.namedType? target).bind (db.recordWithin steps)
    | .struct id | .union id => some id
    | _ => none

/-- The structure or union that the size of a type depends on. -/
def recordOf? (db : Database) (ordinal : Ordinal) : Option StructId :=
  db.recordWithin (maxSizeSteps + 1) ordinal

/-- The database with no other members than those that are listed. -/
def keeping (db : Database) (kept : List Addition) : Database :=
  { db with
    structs := db.structs.mapIdx fun k d =>
      { d with members := d.members.filter fun m => decide ((⟨k⟩, m) ∈ kept) } }

theorem structDef?_keeping (db : Database) (kept : List Addition) (id : StructId) :
    (db.keeping kept).structDef? id =
      (db.structDef? id).map fun d =>
        { d with members := d.members.filter fun m => decide ((id, m) ∈ kept) } := by
  simp only [structDef?, keeping, Array.getElem?_mapIdx]

theorem numberedType?_keeping (db : Database) (kept : List Addition) (o : Ordinal) :
    (db.keeping kept).numberedType? o = db.numberedType? o := rfl

theorem linkOrdinal?_keeping (db : Database) (kept : List Addition) (link : TypeLink) :
    (db.keeping kept).linkOrdinal? link = db.linkOrdinal? link := by
  cases link with
  | enum | named => rfl
  | struct id =>
    change ((db.keeping kept).structDef? id).map (·.ordinal) = (db.structDef? id).map (·.ordinal)
    rw [structDef?_keeping, Option.map_map]
    rfl

/-! ## Steps of a look-up -/

/-- The size of a shape, unless it follows from that of another type. -/
def ownSize? (db : Database) : TypeShape → Option UInt64
  | .bool width => some width.size
  | .int width _ _ => some width.size
  | .float width => some width.size
  | .pointer _ => some db.pointerSize
  | .struct id | .union id => (db.structDef? id).map StructDef.size
  | .enum id => (db.enumDef? id).map (·.width.toUInt64)
  | _ => none

/-- The type that the size of a shape follows from, and how often that one counts. -/
def sizeSource? (db : Database) : TypeShape → Option (Ordinal × UInt64)
  | .const inner | .volatile inner => some (inner, 1)
  | .array element count => if count = 0 then none else some (element, count)
  | .typedef target => (db.namedType? target).map (·, 1)
  | _ => none

section Steps

variable {db : Database} {shape : TypeShape} {o inner : Ordinal} {t : NamedType}
  {n count : UInt64} {steps : Nat}

theorem checkedMul_eq_some {a b n : UInt64} :
    checkedMul a b = some n ↔ a.toNat * b.toNat < UInt64.size ∧ n.toNat = a.toNat * b.toNat := by
  unfold checkedMul
  constructor
  · intro h
    split at h
    · rename_i hlt
      cases h
      exact ⟨hlt, by rw [UInt64.toNat_mul, Nat.mod_eq_of_lt hlt]⟩
    · cases h
  · rintro ⟨hlt, hn⟩
    rw [if_pos hlt, Option.some.injEq, ← UInt64.toNat_inj, UInt64.toNat_mul,
      Nat.mod_eq_of_lt hlt, hn]

theorem checkedMul_one (a : UInt64) : checkedMul a 1 = some a :=
  checkedMul_eq_some.mpr ⟨by simpa using a.toNat_lt, by simp⟩

/-- A shape with a size of its own takes it from no other type, whatever names there are. -/
theorem sizeSource?_of_ownSize? {db' : Database} (h : db.ownSize? shape = some n) :
    db'.sizeSource? shape = none := by
  cases shape with
  | void | incomplete | function | const | volatile | array | typedef => cases h
  | bool | int | float | pointer | struct | union | enum => rfl

theorem sizeSource?_array_eq_some {element : Ordinal} {number : UInt64} :
    db.sizeSource? (.array element number) = some (inner, count) ↔
      number ≠ 0 ∧ element = inner ∧ number = count := by
  change (if number = 0 then none else some (element, number)) = some (inner, count) ↔ _
  rw [Option.ite_none_left_eq_some, Option.some.injEq, Prod.mk.injEq]

theorem sizeSource?_ne_zero (h : db.sizeSource? shape = some (inner, count)) : count ≠ 0 := by
  cases shape with
  | const | volatile =>
    cases h
    decide
  | array =>
    obtain ⟨hne, -, rfl⟩ := sizeSource?_array_eq_some.mp h
    exact hne
  | typedef target =>
    obtain ⟨_, -, heq⟩ := Option.map_eq_some_iff.mp h
    cases heq
    decide
  | void | incomplete | function | bool | int | float | pointer | struct | union | enum => cases h

theorem sizeWithin_of_own (ht : db.numberedType? o = some t)
    (hsource : db.sizeSource? t.shape = none) :
    db.sizeWithin (steps + 1) o = db.ownSize? t.shape := by
  rw [sizeWithin, ht, Option.bind_eq_bind, Option.bind_some]
  cases hshape : t.shape with
  | const | volatile =>
    rw [hshape] at hsource
    cases hsource
  | array element number =>
    rw [hshape, sizeSource?] at hsource
    split at hsource
    · rename_i hzero
      exact if_pos hzero
    · cases hsource
  | typedef target =>
    rw [hshape, sizeSource?, Option.map_eq_none_iff] at hsource
    dsimp only
    rw [hsource]
    rfl
  | void | incomplete | function | bool | int | float | pointer | struct | union | enum => rfl

theorem sizeWithin_of_source (ht : db.numberedType? o = some t)
    (hsource : db.sizeSource? t.shape = some (inner, count)) :
    db.sizeWithin (steps + 1) o = (db.sizeWithin steps inner).bind (checkedMul · count) := by
  rw [sizeWithin, ht, Option.bind_eq_bind, Option.bind_some]
  cases hshape : t.shape with
  | const | volatile =>
    rw [hshape] at hsource
    cases hsource
    simp only [checkedMul_one, Option.bind_fun_some]
  | array =>
    rw [hshape] at hsource
    obtain ⟨hne, rfl, rfl⟩ := sizeSource?_array_eq_some.mp hsource
    exact if_neg hne
  | typedef target =>
    rw [hshape] at hsource
    obtain ⟨o', ho', heq⟩ := Option.map_eq_some_iff.mp hsource
    cases heq
    dsimp only
    simp only [ho', Option.bind_some, checkedMul_one, Option.bind_fun_some]
  | void | incomplete | function | bool | int | float | pointer | struct | union | enum =>
    rw [hshape] at hsource
    cases hsource

/-- A look-up of one step more ends at the type itself, or goes on with another one. -/
theorem sizeWithin_succ_eq_some_iff :
    db.sizeWithin (steps + 1) o = some n ↔ ∃ t, db.numberedType? o = some t ∧
      (db.ownSize? t.shape = some n ∨ ∃ inner count k,
        db.sizeSource? t.shape = some (inner, count) ∧ db.sizeWithin steps inner = some k ∧
          checkedMul k count = some n) := by
  constructor
  · intro h
    obtain ⟨t, ht, -⟩ := Option.bind_eq_some_iff.mp h
    refine ⟨t, ht, ?_⟩
    cases hsource : db.sizeSource? t.shape with
    | none =>
      left
      rwa [sizeWithin_of_own ht hsource] at h
    | some source =>
      right
      obtain ⟨inner, count⟩ := source
      rw [sizeWithin_of_source ht hsource] at h
      obtain ⟨k, hk, hmul⟩ := Option.bind_eq_some_iff.mp h
      exact ⟨inner, count, k, rfl, hk, hmul⟩
  · rintro ⟨t, ht, hown | ⟨inner, count, k, hsource, hk, hmul⟩⟩
    · rw [sizeWithin_of_own ht (sizeSource?_of_ownSize? hown), hown]
    · rw [sizeWithin_of_source ht hsource, hk, Option.bind_some, hmul]

end Steps

/-! ## Growth -/

/-- What is known of types stays known, and structures keep their sizes. -/
structure Preserves (db db' : Database) : Prop where
  pointerSize : db'.pointerSize = db.pointerSize
  types : ∀ {o t}, db.numberedType? o = some t → ∃ t', db'.numberedType? o = some t' ∧ t.Becomes t'
  named : ∀ {name o}, db.namedType? name = some o → db'.namedType? name = some o
  structs : ∀ {id d}, db.structDef? id = some d →
    ∃ d', db'.structDef? id = some d' ∧ d'.ordinal = d.ordinal ∧
      StructDef.size d' = StructDef.size d
  enums : ∀ {id d}, db.enumDef? id = some d →
    ∃ constants, db'.enumDef? id = some { d with constants }

theorem Preserves.ownSize? {db db' : Database} (h : Preserves db db') {shape : TypeShape}
    {n : UInt64} (hn : db.ownSize? shape = some n) : db'.ownSize? shape = some n := by
  cases shape with
  | void | incomplete | function | const | volatile | array | typedef => cases hn
  | bool | int | float => exact hn
  | pointer => exact (congrArg some h.pointerSize).trans hn
  | struct id | union id =>
    obtain ⟨d, hd, rfl⟩ := Option.map_eq_some_iff.mp hn
    obtain ⟨d', hd', -, hsize⟩ := h.structs hd
    exact Option.map_eq_some_iff.mpr ⟨d', hd', hsize⟩
  | enum id =>
    obtain ⟨d, hd, rfl⟩ := Option.map_eq_some_iff.mp hn
    obtain ⟨constants, hd'⟩ := h.enums hd
    exact Option.map_eq_some_iff.mpr ⟨_, hd', rfl⟩

theorem Preserves.sizeSource? {db db' : Database} (h : Preserves db db') {shape : TypeShape}
    {source : Ordinal × UInt64} (hsource : db.sizeSource? shape = some source) :
    db'.sizeSource? shape = some source := by
  cases shape with
  | typedef target =>
    obtain ⟨o, ho, rfl⟩ := Option.map_eq_some_iff.mp hsource
    exact Option.map_eq_some_iff.mpr ⟨o, h.named ho, rfl⟩
  | _ => exact hsource

theorem Preserves.sizeWithin {db db' : Database} (h : Preserves db db') {steps : Nat} {o : Ordinal}
    {n : UInt64} (hn : db.sizeWithin steps o = some n) : db'.sizeWithin steps o = some n := by
  induction steps generalizing o n with
  | zero => cases hn
  | succ steps ih =>
    obtain ⟨t, ht, hsize⟩ := sizeWithin_succ_eq_some_iff.mp hn
    have hne : t.shape ≠ .incomplete := by
      intro heq
      rw [heq] at hsize
      rcases hsize with hown | ⟨_, _, _, hsource, -⟩
      · cases hown
      · cases hsource
    obtain ⟨t', ht', hbecomes⟩ := h.types ht
    obtain rfl := hbecomes.eq hne
    refine sizeWithin_succ_eq_some_iff.mpr ⟨t', ht', ?_⟩
    exact hsize.imp h.ownSize? fun ⟨inner, count, k, hsource, hk, hmul⟩ =>
      ⟨inner, count, k, h.sizeSource? hsource, ih hk, hmul⟩

theorem Preserves.linkOrdinal? {db db' : Database} (h : Preserves db db') {link : TypeLink}
    {o : Ordinal} (ho : db.linkOrdinal? link = some o) : db'.linkOrdinal? link = some o := by
  cases link with
  | enum id =>
    obtain ⟨d, hd, rfl⟩ := Option.map_eq_some_iff.mp ho
    obtain ⟨constants, hd'⟩ := h.enums hd
    exact Option.map_eq_some_iff.mpr ⟨_, hd', rfl⟩
  | struct id =>
    obtain ⟨d, hd, rfl⟩ := Option.map_eq_some_iff.mp ho
    obtain ⟨d', hd', hordinal, -⟩ := h.structs hd
    exact Option.map_eq_some_iff.mpr ⟨d', hd', hordinal⟩
  | named => exact ho

/-- Growth keeps the sizes that types had with some members only, if it adds none of those. -/
theorem Extends.preserves_keeping {db db' : Database} (he : Extends db db') {kept : List Addition}
    (hm : ∀ {id d d'}, db.structDef? id = some d → db'.structDef? id = some d' →
      d'.members.filter (fun m => decide ((id, m) ∈ kept)) =
        d.members.filter fun m => decide ((id, m) ∈ kept)) :
    Preserves (db.keeping kept) (db'.keeping kept) where
  pointerSize := he.pointerSize
  types := he.types
  named := he.named
  structs {id d₀} hd₀ := by
    rw [structDef?_keeping] at hd₀
    obtain ⟨d, hd, rfl⟩ := Option.map_eq_some_iff.mp hd₀
    obtain ⟨members, hd', -⟩ := he.structs hd
    have hsame := hm hd hd'
    refine ⟨_, ?_, rfl, rfl⟩
    rw [structDef?_keeping, hd', Option.map_some]
    simp only at hsame
    rw [hsame]
  enums := he.enums

/-! ## The structure that a size depends on -/

theorem checkedMul_inj {a b c n : UInt64} (hc : c ≠ 0) (ha : checkedMul a c = some n)
    (hb : checkedMul b c = some n) : a = b := by
  have hprod : a.toNat * c.toNat = b.toNat * c.toNat :=
    (checkedMul_eq_some.mp ha).2.symm.trans (checkedMul_eq_some.mp hb).2
  have hpos : 0 < c.toNat := Nat.pos_of_ne_zero fun h => hc (UInt64.toNat_inj.mp h)
  exact UInt64.toNat_inj.mp (Nat.eq_of_mul_eq_mul_right hpos hprod)

theorem recordWithin_of_source {db : Database} {o inner : Ordinal} {t : NamedType} {count : UInt64}
    {steps : Nat} (ht : db.numberedType? o = some t)
    (hsource : db.sizeSource? t.shape = some (inner, count)) :
    db.recordWithin (steps + 1) o = db.recordWithin steps inner := by
  rw [recordWithin, ht, Option.bind_eq_bind, Option.bind_some]
  cases hshape : t.shape with
  | const | volatile =>
    rw [hshape] at hsource
    cases hsource
    rfl
  | array =>
    rw [hshape] at hsource
    obtain ⟨-, rfl, -⟩ := sizeSource?_array_eq_some.mp hsource
    rfl
  | typedef target =>
    rw [hshape] at hsource
    obtain ⟨o', ho', heq⟩ := Option.map_eq_some_iff.mp hsource
    cases heq
    dsimp only
    rw [ho', Option.bind_some]
  | void | incomplete | function | bool | int | float | pointer | struct | union | enum =>
    rw [hshape] at hsource
    cases hsource

/-- Of the types with a size of their own, only records may get another one with other members. -/
theorem ownSize?_keeping_iff {db : Database} {kept : List Addition} {o : Ordinal} {t : NamedType}
    {steps : Nat} {n : UInt64} (ht : db.numberedType? o = some t)
    (hn : (db.keeping kept).ownSize? t.shape = some n) :
    db.ownSize? t.shape = some n ↔ ∀ id, db.recordWithin (steps + 1) o = some id →
      ((db.keeping kept).structDef? id).map StructDef.size =
        (db.structDef? id).map StructDef.size := by
  rw [recordWithin, ht, Option.bind_eq_bind, Option.bind_some]
  cases hshape : t.shape with
  | void | incomplete | function | const | volatile | array | typedef =>
    rw [hshape] at hn
    cases hn
  | bool | int | float | pointer | enum =>
    rw [hshape] at hn
    simp only [reduceCtorEq, false_implies, implies_true, iff_true]
    exact hn
  | struct id | union id =>
    rw [hshape] at hn
    simp only [Option.some.injEq, forall_eq']
    rw [hn.symm]
    exact eq_comm

/-- With other members, a type has the same size if and only if the structure that it depends on
has. -/
theorem sizeWithin_keeping_iff (db : Database) (kept : List Addition) {steps : Nat} {o : Ordinal}
    {n : UInt64} (hn : (db.keeping kept).sizeWithin steps o = some n) :
    db.sizeWithin steps o = some n ↔ ∀ id, db.recordWithin steps o = some id →
      ((db.keeping kept).structDef? id).map StructDef.size =
        (db.structDef? id).map StructDef.size := by
  induction steps generalizing o n with
  | zero => cases hn
  | succ steps ih =>
    obtain ⟨t, ht, hn⟩ := sizeWithin_succ_eq_some_iff.mp hn
    rw [numberedType?_keeping] at ht
    rcases hn with hown | ⟨inner, count, k, hsource, hk, hmul⟩
    · rw [sizeWithin_of_own ht (sizeSource?_of_ownSize? hown)]
      exact ownSize?_keeping_iff ht hown
    · have hsource' : db.sizeSource? t.shape = some (inner, count) := hsource
      rw [sizeWithin_of_source ht hsource', recordWithin_of_source ht hsource', ← ih hk]
      constructor
      · intro hsize
        obtain ⟨k', hk', hmul'⟩ := Option.bind_eq_some_iff.mp hsize
        rw [checkedMul_inj (sizeSource?_ne_zero hsource) hmul hmul']
        exact hk'
      · intro hk'
        exact Option.bind_eq_some_iff.mpr ⟨k, hk', hmul⟩

end Database

end DebugSymbols
