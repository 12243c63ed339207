import DebugSymbols.Proofs.Database.MemberOrder

/-!
How the tables of a database belong together.  Names tell types, constants, members and stack
variables apart, definitions and their types refer to each other (`Regular`), and the name of a
definition finds it for good (`Finds`).  Main statement: `regular_built`, for whatever calls a
database was given.
-/

namespace DebugSymbols

namespace Database

variable {db db' db'' : Database}

/-! ## Lists of names -/

/-- The list is as it was, or has one more name, which is new. -/
def Gains (names names' : List String) : Prop :=
  names' = names ∨ ∃ name, name ∉ names ∧ names' = names ++ [name]

theorem Gains.refl (names : List String) : Gains names names := .inl rfl

theorem Gains.nodup {names names' : List String} (h : Gains names names') (hn : names.Nodup) :
    names'.Nodup := by
  rcases h with rfl | ⟨name, hfresh, rfl⟩
  · exact hn
  · rw [List.nodup_append]
    refine ⟨hn, List.nodup_singleton name, fun a ha b hb => ?_⟩
    rw [List.mem_singleton.mp hb]
    exact fun heq => hfresh (heq ▸ ha)

/-- The names of the constants of an enumeration. -/
def constantNames (db : Database) (id : EnumId) : List String :=
  ((db.enumDef? id).elim [] (·.constants)).map (·.1)

/-- The names of the stack variables of a function. -/
def variableNames (db : Database) (f : UInt64) : List String :=
  (db.stackVariablesOf f).map (·.name)

theorem constantNames_congr (h : db'.enums = db.enums) (id : EnumId) :
    db'.constantNames id = db.constantNames id := by
  simp only [constantNames, enumDef?, h]

theorem variableNames_congr (h : db'.stackVariables = db.stackVariables) (f : UInt64) :
    db'.variableNames f = db.variableNames f := by
  simp only [variableNames, stackVariablesOf, h]

/-- One name comes up at most, and it is new where it comes up. -/
structure GainsNames (db db' : Database) : Prop where
  types : Gains db.typeNames db'.typeNames
  constants : ∀ id, Gains (db.constantNames id) (db'.constantNames id)
  stack : ∀ f, Gains (db.variableNames f) (db'.variableNames f)

theorem GainsNames.of_types (ht : Gains db.typeNames db'.typeNames) (he : db'.enums = db.enums)
    (hv : db'.stackVariables = db.stackVariables) : GainsNames db db' where
  types := ht
  constants id := .inl (constantNames_congr he id)
  stack f := .inl (variableNames_congr hv f)

theorem GainsNames.of_eq (ht : db'.types = db.types) (he : db'.enums = db.enums)
    (hv : db'.stackVariables = db.stackVariables) : GainsNames db db' := by
  apply GainsNames.of_types _ he hv
  left
  simp only [typeNames, ht]

theorem gains_push {t : NamedType} (ht : db'.types = db.types.push t)
    (hfresh : t.name ∉ db.typeNames) : Gains db.typeNames db'.typeNames :=
  .inr ⟨t.name, hfresh, typeNames_push ht⟩

theorem gains_addNamedType? {name : String} {shape : TypeShape} {o : Ordinal}
    (h : db.addNamedType? name shape = some (o, db')) : Gains db.typeNames db'.typeNames := by
  obtain ⟨hfresh, -, rfl⟩ := addNamedType?_eq_some h
  exact gains_push (t := ⟨name, shape⟩) rfl (namedType?_eq_none.mp hfresh)

/-- A made up name is new, and completing a type gives none. -/
theorem gains_reserve? {name : Option String} {kind : Kind} {shape : TypeShape} {taken : String}
    {o : Ordinal} (h : db.reserve? name kind shape = some (taken, o, db')) :
    Gains db.typeNames db'.typeNames := by
  cases reservation h with
  | made hfresh => exact gains_push (t := ⟨_, shape⟩) rfl hfresh
  | added hadd => exact gains_addNamedType? hadd
  | completed => exact .inl (typeNames_setShape db o shape)

theorem gainsNames_addEnum? {name : Option String} {width : UInt8} {id : EnumId}
    (h : db.addEnum? name width = some (id, db')) : GainsNames db db' := by
  obtain ⟨-, hsame, d, hempty, henums⟩ := addEnum?_eq_some h
  obtain ⟨⟨taken, o, db₁⟩, hreserve, hpush⟩ := Option.bind_eq_some_iff.mp h
  have htypes := gains_reserve? hreserve
  constructor
  · cases hpush
    exact htypes
  · intro id'
    left
    unfold constantNames
    rw [enumDef?, enumDef?, henums, Array.getElem?_push]
    split
    · rename_i hid
      simp [hid, hempty]
    · rfl
  · intro f
    exact .inl (variableNames_congr hsame.stack f)

theorem gainsNames_addEnumConstant? {id : EnumId} {name : String} {value : UInt64}
    (h : db.addEnumConstant? id name value = some db') : GainsNames db db' := by
  obtain ⟨hsame, -⟩ := addEnumConstant?_eq_some h
  obtain ⟨d, hadds⟩ := addsConstant h
  constructor
  · left
    rw [hadds.eq]
    rfl
  · intro id'
    unfold constantNames
    rw [hadds.enumDef?]
    split
    · rename_i hid
      right
      exact ⟨name, by simpa [hid, hadds.known] using hadds.fresh, by simp [hid, hadds.known]⟩
    · exact .refl _
  · intro f
    exact .inl (variableNames_congr hsame.stack f)

theorem gainsNames_addStruct? {name : Option String} {isUnion : Bool} {id : StructId}
    (h : db.addStruct? name isUnion = some (id, db')) : GainsNames db db' := by
  rw [addStruct?_eq] at h
  obtain ⟨⟨taken, o, db₁⟩, hreserve, hpush⟩ := Option.map_eq_some_iff.mp h
  obtain ⟨hsame, henums, -⟩ := reserve?_eq_some hreserve
  have htypes := gains_reserve? hreserve
  cases hpush
  exact GainsNames.of_types htypes henums hsame.stack

theorem gainsNames_addStackVariable? {f : UInt64} {v : StackVariable}
    (h : db.addStackVariable? f v = some db') : GainsNames db db' := by
  obtain ⟨-, htypes, -, henums⟩ := addStackVariable?_eq_some h
  constructor
  · left
    simp only [typeNames, htypes]
  · intro id
    exact .inl (constantNames_congr henums id)
  · intro f'
    unfold variableNames
    rw [stackVariablesOf_addStackVariable? h]
    split
    · rename_i hf
      right
      refine ⟨v.name, fun hmem => ?_, by simp [hf]⟩
      obtain ⟨other, hother, hname⟩ := List.mem_map.mp hmem
      rw [hf] at hother
      have htaken : (db.stackVariable? f v.name).isSome := by
        unfold stackVariable?
        rw [List.find?_isSome]
        exact ⟨other, hother, by simpa using hname⟩
      unfold addStackVariable? at h
      rw [if_pos htaken] at h
      cases h
    · exact .refl _

/-! ## An index of types -/

/-- An index of types by their names, kept up to date: the name of a type that was added is
entered with its ordinal, and nothing is ever taken out. -/
def enterType (db db' : Database) (index : SortedMap String Ordinal) : SortedMap String Ordinal :=
  if db.types.size < db'.types.size then
    match db'.typeNames.getLast? with
    | some name => index.insert name ⟨db'.types.size⟩
    | none => index
  else index

theorem length_typeNames (db : Database) : db.typeNames.length = db.types.size := by
  simp [typeNames]

/-- A new name means the type that was added. -/
theorem namedType?_of_append {name : String} (h : db'.typeNames = db.typeNames ++ [name])
    (hfresh : name ∉ db.typeNames) (other : String) :
    db'.namedType? other =
      if other = name then some ⟨db'.types.size⟩ else db.namedType? other := by
  have hsize : db'.types.size = db.types.size + 1 := by
    rw [← length_typeNames, h, List.length_append, length_typeNames]
    rfl
  rw [namedType?_eq, namedType?_eq, h, List.findIdx?_append]
  split
  · rename_i heq
    subst heq
    have hnone : db.typeNames.findIdx? (· = other) = none := by
      rw [List.findIdx?_eq_none_iff]
      intro x hx
      have hne : x ≠ other := fun heq => hfresh (heq ▸ hx)
      simpa using hne
    rw [hnone, hsize]
    simp [List.findIdx?_cons, length_typeNames]
  · rename_i hne
    simp [List.findIdx?_cons, Ne.symm hne]

/-- What is looked up in the index is what the database finds. -/
theorem get?_enterType {index : SortedMap String Ordinal}
    (hindex : ∀ name, index.get? name = db.namedType? name)
    (h : Gains db.typeNames db'.typeNames) (name : String) :
    (enterType db db' index).get? name = db'.namedType? name := by
  unfold enterType
  rcases h with heq | ⟨added, hfresh, heq⟩
  · have hsize : db'.types.size = db.types.size := by
      rw [← length_typeNames, heq, length_typeNames]
    rw [if_neg (by omega), hindex, namedType?_congr heq]
  · have hsize : db'.types.size = db.types.size + 1 := by
      rw [← length_typeNames, heq, List.length_append, length_typeNames]
      rfl
    rw [if_pos (by omega), namedType?_of_append heq hfresh, heq, List.getLast?_concat]
    simp only [SortedMap.get?_insert, hindex]

/-! ## Looking up definitions -/

theorem Coherent.findEnum? (hc : db.Coherent) {id : EnumId} {d : EnumDef}
    (hd : db.enumDef? id = some d) : db.findEnum? d.name = some id := by
  have ht := hc.enums hd
  have hn := hc.named ht
  simp [Database.findEnum?, hn, ht]

theorem Coherent.findStruct? (hc : db.Coherent) {id : StructId} {d : StructDef}
    (hd : db.structDef? id = some d) : db.findStruct? d.name = some id := by
  have ht := hc.structs hd
  have hn := hc.named ht
  cases hunion : d.isUnion with
  | false => simp [Database.findStruct?, hn, ht, StructDef.shape, hunion]
  | true => simp [Database.findStruct?, hn, ht, StructDef.shape, hunion]

/-- The definitions of the first database are found by their names in the second. -/
structure Finds (db db' : Database) : Prop where
  enums : ∀ id d, db.enumDef? id = some d → db'.findEnum? d.name = some id
  structs : ∀ id d, db.structDef? id = some d → db'.findStruct? d.name = some id

theorem Extends.finds (h : db.Extends db') (hc : db'.Coherent) : db.Finds db' := by
  constructor
  · intro id d hd
    obtain ⟨constants, hd'⟩ := h.enums hd
    exact hc.findEnum? (d := { d with constants }) hd'
  · intro id d hd
    obtain ⟨members, hd', -⟩ := h.structs hd
    exact hc.findStruct? (d := { d with members }) hd'

/-! ## Regular databases -/

/-- Names tell things apart, ordinals count the types, and every definition has its type. -/
structure Regular (db : Database) : Prop where
  named : ∀ name o, db.namedType? name = some o ↔ ∃ t, db.numberedType? o = some t ∧ t.name = name
  numbered : ∀ o, (db.numberedType? o).isSome = true ↔ 1 ≤ o.val ∧ o.val ≤ db.types.size
  names : db.typeNames.Nodup
  enums : ∀ id d, db.enumDef? id = some d → db.numberedType? d.ordinal = some ⟨d.name, .enum id⟩
  structs : ∀ id d, db.structDef? id = some d →
    db.numberedType? d.ordinal = some ⟨d.name, if d.isUnion then .union id else .struct id⟩
  constants : ∀ id d, db.enumDef? id = some d → (d.constants.map (·.1)).Nodup
  members : ∀ id d, db.structDef? id = some d → (d.members.map (·.name)).Nodup
  stack : ∀ f, ((db.stackVariablesOf f).map (·.name)).Nodup

theorem isSome_numberedType? (o : Ordinal) :
    (db.numberedType? o).isSome = true ↔ 1 ≤ o.val ∧ o.val ≤ db.types.size := by
  obtain ⟨_ | k⟩ := o
  · simp [numberedType?]
  · have hlt : db.types[k]?.isSome = true ↔ k < db.types.size := by simp
    change db.types[k]?.isSome = true ↔ 1 ≤ k + 1 ∧ k + 1 ≤ db.types.size
    rw [hlt]
    omega

theorem Coherent.regular (hc : db.Coherent) (hconstants : ∀ id, (db.constantNames id).Nodup)
    (hmembers : ∀ id, ((db.membersOf id).map (·.name)).Nodup)
    (hstack : ∀ f, (db.variableNames f).Nodup) : db.Regular where
  named name o := by
    constructor
    · intro h
      obtain ⟨shape, ht⟩ := numberedType?_of_named h
      exact ⟨_, ht, rfl⟩
    · rintro ⟨t, ht, rfl⟩
      exact hc.named ht
  numbered o := isSome_numberedType? o
  names := hc.names
  enums _ _ hd := hc.enums hd
  structs _ _ hd := hc.structs hd
  constants id d hd := by simpa [constantNames, hd] using hconstants id
  members id d hd := by simpa [membersOf, hd] using hmembers id
  stack f := hstack f

end Database

/-! ## All calls -/

namespace Host

open Database

variable {h : Host}

theorem gainsNames_perform (h : Host) (c : Call) :
    GainsNames h.database (h.perform c).2.database := by
  let P (h' : Host) : Prop := GainsNames h.database h'.database
  have hsame : P h := GainsNames.of_eq rfl rfl rfl
  cases c with
  | addNamedType name shape =>
    refine of_hand (P := P) hsame fun o h' hadd => ?_
    obtain ⟨db, hdb, rfl⟩ := addNamedType?_eq_some hadd
    apply GainsNames.of_types (gains_addNamedType? hdb)
    · obtain ⟨-, -, rfl⟩ := Database.addNamedType?_eq_some hdb
      rfl
    · obtain ⟨-, -, rfl⟩ := Database.addNamedType?_eq_some hdb
      rfl
  | addEnum name width =>
    refine of_hand (P := P) hsame fun id h' hadd => ?_
    obtain ⟨db, hdb, rfl⟩ := addEnum?_eq_some hadd
    exact gainsNames_addEnum? hdb
  | addEnumConstant id name value =>
    refine of_attempt (P := P) hsame fun h' hadd => ?_
    obtain ⟨db, hdb, rfl⟩ := addEnumConstant?_eq_some hadd
    exact gainsNames_addEnumConstant? hdb
  | addStruct name isUnion =>
    refine of_hand (P := P) hsame fun id h' hadd => ?_
    obtain ⟨db, hdb, rfl⟩ := addStruct?_eq_some hadd
    exact gainsNames_addStruct? hdb
  | addStructMember id m =>
    refine of_attempt (P := P) hsame fun h' hadd => ?_
    obtain ⟨db, hdb, rfl⟩ := addStructMember?_eq_some hadd
    obtain ⟨d, hadds⟩ := addsMember hdb
    rw [hadds.eq]
    exact GainsNames.of_eq rfl rfl rfl
  | setName address name isLocal =>
    refine of_attempt (P := P) hsame fun h' hset => ?_
    unfold setName? at hset
    split at hset
    · cases hset
    · cases hset
      exact GainsNames.of_eq rfl rfl rfl
  | addStackVariable f v =>
    refine of_attempt (P := P) hsame fun h' hadd => ?_
    obtain ⟨db, hdb, rfl⟩ := addStackVariable?_eq_some hadd
    exact gainsNames_addStackVariable? hdb
  | addRegisterVariable f v =>
    refine of_attempt (P := P) hsame fun h' hadd => ?_
    rw [addRegisterVariable?_eq_some hadd]
    exact GainsNames.of_eq rfl rfl rfl
  | addFunction | applyType | storeBlob => exact GainsNames.of_eq rfl rfl rfl
  | typeCount | namedType | numberedType | typeSize | findEnum | enumWithConstant | enumDef
  | findStruct | structDef | functionAt | appliedType | nameAt | stackVariable | loadBlob =>
    exact hsame

/-- A member that is accepted has a new name. -/
theorem nodup_membersOf_perform (hc : h.database.Coherent) (c : Call) (id : StructId)
    (hn : ((h.database.membersOf id).map (·.name)).Nodup) :
    (((h.perform c).2.database.membersOf id).map (·.name)).Nodup := by
  rw [membersOf_perform hc]
  cases hnew : h.newMember? id c with
  | none => exact hn
  | some m =>
    obtain ⟨rfl, h', hadd⟩ := newMember?_eq_some.mp hnew
    obtain ⟨db, hdb, rfl⟩ := addStructMember?_eq_some hadd
    exact nodup_insertMember hn (not_mem_membersOf hdb)

theorem nodup_performAll (hc : h.database.Coherent) (calls : List Call)
    (hconstants : ∀ id, (h.database.constantNames id).Nodup)
    (hmembers : ∀ id, ((h.database.membersOf id).map (·.name)).Nodup)
    (hstack : ∀ f, (h.database.variableNames f).Nodup) :
    (h.performAll calls).database.Regular := by
  induction calls generalizing h with
  | nil => exact hc.regular hconstants hmembers hstack
  | cons c rest ih =>
    have hgains := gainsNames_perform h c
    apply ih ((extends_perform hc c).coherent hc)
    · intro id
      exact (hgains.constants id).nodup (hconstants id)
    · intro id
      exact nodup_membersOf_perform hc c id (hmembers id)
    · intro f
      exact (hgains.stack f).nodup (hstack f)

/-- The index of types that is kept along while calls are carried out. -/
def typeIndex (h : Host) (index : SortedMap String Ordinal) :
    List Call → SortedMap String Ordinal
  | [] => index
  | c :: rest =>
    let h' := (h.perform c).2
    h'.typeIndex (enterType h.database h'.database index) rest

theorem get?_typeIndex (calls : List Call) {index : SortedMap String Ordinal}
    (hindex : ∀ name, index.get? name = h.database.namedType? name) (name : String) :
    (h.typeIndex index calls).get? name = (h.performAll calls).database.namedType? name := by
  induction calls generalizing h index with
  | nil => exact hindex name
  | cons c rest ih =>
    exact ih (get?_enterType hindex (gainsNames_perform h c).types)

/-- Whatever calls a database was given, its tables belong together: it is regular, its definitions
are found by their names for good, its members are sorted, and it finds types as an index of their
names would. -/
theorem regular_built (pointerSize : UInt64) (calls later : List Call) :
    let start := ofDatabase (.empty pointerSize)
    let db := (built pointerSize calls).database
    db.Regular ∧
      db.Finds (built pointerSize (calls ++ later)).database ∧
      (∀ id, db.membersOf id = sortMembers (start.newMembers id calls)) ∧
      ∀ name, db.namedType? name = (start.typeIndex .empty calls).get? name := by
  intro start db
  have hc := coherent_empty pointerSize
  refine ⟨?_, ?_, ?_, ?_⟩
  · exact nodup_performAll hc calls (fun _ => .nil) (fun _ => .nil) fun _ => .nil
  · have hlater : built pointerSize (calls ++ later) = (built pointerSize calls).performAll later :=
      List.foldl_append
    rw [hlater]
    have he := extends_performAll (coherent_built pointerSize calls) later
    exact he.database.finds (he.coherent (coherent_built pointerSize calls))
  · exact membersOf_built pointerSize calls
  · have hempty (name : String) :
        (.empty : SortedMap String Ordinal).get? name = start.database.namedType? name :=
      (namedType?_eq_none.mpr (by simp [start, ofDatabase, typeNames, empty])).symm
    intro name
    exact (get?_typeIndex calls hempty name).symm

end Host

end DebugSymbols
