import DebugSymbols.Proofs.Database.Growth

/-!
What a host of its own makes of a database.  `performAll` carries out calls one after the other,
and every database that comes from calls to an empty one is coherent.
-/

namespace DebugSymbols

namespace Database

/-- Nothing happens to types if only other things change. -/
theorem extends_of_eq {db db' : Database} (hp : db'.pointerSize = db.pointerSize)
    (ht : db'.types = db.types) (hs : db'.structs = db.structs) (he : db'.enums = db.enums) :
    Extends db db' where
  pointerSize := hp
  types h := ⟨_, by rwa [numberedType?_congr ht], .refl _⟩
  named h := by
    have hn : db'.typeNames = db.typeNames := by simp only [typeNames, ht]
    rwa [namedType?_congr hn]
  structs h := ⟨_, by rwa [structDef?, hs], List.Subset.refl _⟩
  enums h := ⟨_, by rwa [enumDef?, he]⟩

/-- Sizes do not depend on anything but types. -/
theorem sizeWithin_congr {db db' : Database} (hp : db'.pointerSize = db.pointerSize)
    (ht : db'.types = db.types) (hs : db'.structs = db.structs) (he : db'.enums = db.enums)
    (steps : Nat) : db'.sizeWithin steps = db.sizeWithin steps := by
  induction steps with
  | zero => rfl
  | succ steps ih =>
    funext o
    have hn : db'.typeNames = db.typeNames := by simp only [typeNames, ht]
    unfold sizeWithin
    simp only [ih, numberedType?_congr ht, namedType?_congr hn, structDef?, enumDef?, hs, he, hp]

theorem Coherent.of_eq {db db' : Database} (h : Coherent db)
    (hp : db'.pointerSize = db.pointerSize) (ht : db'.types = db.types)
    (hs : db'.structs = db.structs) (he : db'.enums = db.enums) : Coherent db' :=
  h.of_extends (extends_of_eq hp ht hs he) hs he <| by
    rw [typeNames, ht]
    exact h.names

theorem addStackVariable?_eq_some {db db' : Database} {function : UInt64} {v : StackVariable}
    (h : db.addStackVariable? function v = some db') :
    db'.pointerSize = db.pointerSize ∧ db'.types = db.types ∧ db'.structs = db.structs ∧
      db'.enums = db.enums := by
  unfold addStackVariable? at h
  split at h
  · cases h
  · cases h
    exact ⟨rfl, rfl, rfl, rfl⟩

end Database

namespace Host

/-- Growth of the types of a host that goes on refusing the same calls. -/
structure Extends (h h' : Host) : Prop where
  refuses : h'.refuses = h.refuses
  database : h.database.Extends h'.database
  coherent : h.database.Coherent → h'.database.Coherent

theorem Extends.refl (h : Host) : Extends h h := ⟨rfl, .refl _, id⟩

theorem Extends.trans {h h' h'' : Host} (e : Extends h h') (e' : Extends h' h'') :
    Extends h h'' :=
  ⟨e'.refuses.trans e.refuses, e.database.trans e'.database, fun hc => e'.coherent (e.coherent hc)⟩

/-- Only other things than types differ. -/
structure SameTypes (h h' : Host) : Prop where
  refuses : h'.refuses = h.refuses
  pointerSize : h'.database.pointerSize = h.database.pointerSize
  types : h'.database.types = h.database.types
  structs : h'.database.structs = h.database.structs
  enums : h'.database.enums = h.database.enums

theorem SameTypes.extends {h h' : Host} (hs : SameTypes h h') : Extends h h' :=
  ⟨hs.refuses, Database.extends_of_eq hs.pointerSize hs.types hs.structs hs.enums,
    fun hc => hc.of_eq hs.pointerSize hs.types hs.structs hs.enums⟩

theorem SameTypes.numberedType? {h h' : Host} (hs : SameTypes h h') (o : Ordinal) :
    h'.numberedType? o = h.numberedType? o := by
  unfold Host.numberedType?
  rw [hs.refuses, Database.numberedType?_congr hs.types]

theorem SameTypes.typeSize? {h h' : Host} (hs : SameTypes h h') (o : Ordinal) :
    h'.typeSize? o = h.typeSize? o := by
  unfold Host.typeSize? Database.typeSize?
  rw [hs.refuses, Database.sizeWithin_congr hs.pointerSize hs.types hs.structs hs.enums]

/-! ## Accepted changes -/

theorem addNamedType?_eq_some {h h' : Host} {name : String} {shape : TypeShape} {o : Ordinal}
    (hadd : h.addNamedType? name shape = some (o, h')) :
    ∃ db, h.database.addNamedType? name shape = some (o, db) ∧ h' = { h with database := db } := by
  unfold addNamedType? at hadd
  split at hadd
  · cases hadd
  · obtain ⟨⟨o', db⟩, hdb, heq⟩ := Option.map_eq_some_iff.mp hadd
    cases heq
    exact ⟨db, hdb, rfl⟩

theorem addEnum?_eq_some {h h' : Host} {name : Option String} {width : UInt8} {id : EnumId}
    (hadd : h.addEnum? name width = some (id, h')) :
    ∃ db, h.database.addEnum? name width = some (id, db) ∧ h' = { h with database := db } := by
  unfold addEnum? at hadd
  split at hadd
  · cases hadd
  · obtain ⟨⟨id', db⟩, hdb, heq⟩ := Option.map_eq_some_iff.mp hadd
    cases heq
    exact ⟨db, hdb, rfl⟩

theorem addEnumConstant?_eq_some {h h' : Host} {id : EnumId} {name : String} {value : UInt64}
    (hadd : h.addEnumConstant? id name value = some h') :
    ∃ db, h.database.addEnumConstant? id name value = some db ∧
      h' = { h with database := db } := by
  obtain ⟨db, hdb, rfl⟩ := Option.map_eq_some_iff.mp hadd
  exact ⟨db, hdb, rfl⟩

theorem addStruct?_eq_some {h h' : Host} {name : Option String} {isUnion : Bool} {id : StructId}
    (hadd : h.addStruct? name isUnion = some (id, h')) :
    ∃ db, h.database.addStruct? name isUnion = some (id, db) ∧ h' = { h with database := db } := by
  unfold addStruct? at hadd
  split at hadd
  · cases hadd
  · obtain ⟨⟨id', db⟩, hdb, heq⟩ := Option.map_eq_some_iff.mp hadd
    cases heq
    exact ⟨db, hdb, rfl⟩

theorem addStructMember?_eq_some {h h' : Host} {id : StructId} {m : Member}
    (hadd : h.addStructMember? id m = some h') :
    ∃ db, h.database.addStructMember? id m = some db ∧ h' = { h with database := db } := by
  unfold addStructMember? at hadd
  split at hadd
  · cases hadd
  · obtain ⟨db, hdb, rfl⟩ := Option.map_eq_some_iff.mp hadd
    exact ⟨db, hdb, rfl⟩

theorem extends_addNamedType? {h h' : Host} {name : String} {shape : TypeShape} {o : Ordinal}
    (hadd : h.addNamedType? name shape = some (o, h')) : Extends h h' := by
  obtain ⟨db, hdb, rfl⟩ := addNamedType?_eq_some hadd
  exact ⟨rfl, Database.extends_addNamedType? hdb, fun hc => hc.addNamedType? hdb⟩

theorem extends_addEnum? {h h' : Host} {name : Option String} {width : UInt8} {id : EnumId}
    (hc : h.database.Coherent) (hadd : h.addEnum? name width = some (id, h')) : Extends h h' := by
  obtain ⟨db, hdb, rfl⟩ := addEnum?_eq_some hadd
  obtain ⟨d, hadds⟩ := Database.addsEnum hc hdb
  exact ⟨rfl, hadds.extends_, fun _ => hadds.coherent⟩

theorem extends_addEnumConstant? {h h' : Host} {id : EnumId} {name : String} {value : UInt64}
    (hadd : h.addEnumConstant? id name value = some h') : Extends h h' := by
  obtain ⟨db, hdb, rfl⟩ := addEnumConstant?_eq_some hadd
  obtain ⟨d, hadds⟩ := Database.addsConstant hdb
  exact ⟨rfl, hadds.extends, hadds.coherent⟩

theorem extends_addStruct? {h h' : Host} {name : Option String} {isUnion : Bool} {id : StructId}
    (hc : h.database.Coherent) (hadd : h.addStruct? name isUnion = some (id, h')) :
    Extends h h' := by
  obtain ⟨db, hdb, rfl⟩ := addStruct?_eq_some hadd
  obtain ⟨d, ha⟩ := Database.addsStruct hc hdb
  exact ⟨rfl, ha.extends_, fun _ => ha.coherent⟩

theorem extends_addStructMember? {h h' : Host} {id : StructId} {m : Member}
    (hadd : h.addStructMember? id m = some h') : Extends h h' := by
  obtain ⟨db, hdb, rfl⟩ := addStructMember?_eq_some hadd
  obtain ⟨d, ha⟩ := Database.addsMember hdb
  exact ⟨rfl, ha.extends, ha.coherent⟩

/-! ## Other things than types -/

theorem sameTypes_setName? {h h' : Host} {address : UInt64} {name : String} {isLocal : Bool}
    (hset : h.setName? address name isLocal = some h') : SameTypes h h' := by
  unfold setName? at hset
  split at hset
  · cases hset
  · cases hset
    exact ⟨rfl, rfl, rfl, rfl, rfl⟩

theorem sameTypes_addStackVariable? {h h' : Host} {function : UInt64} {v : StackVariable}
    (hadd : h.addStackVariable? function v = some h') : SameTypes h h' := by
  unfold addStackVariable? at hadd
  split at hadd
  · cases hadd
  · obtain ⟨db, hdb, rfl⟩ := Option.map_eq_some_iff.mp hadd
    obtain ⟨hp, ht, hs, he⟩ := Database.addStackVariable?_eq_some hdb
    exact ⟨rfl, hp, ht, hs, he⟩

theorem sameTypes_addRegisterVariable? {h h' : Host} {function : UInt64} {v : RegisterVariable}
    (hadd : h.addRegisterVariable? function v = some h') : SameTypes h h' := by
  unfold addRegisterVariable? at hadd
  split at hadd
  · cases hadd
  · cases hadd
    exact ⟨rfl, rfl, rfl, rfl, rfl⟩

/-! ## Growth apart from structures -/

/-- Types and enumerations are added at most. -/
structure Grows (h h' : Host) : Prop where
  extends_ : h.Extends h'
  structs : h'.database.structs = h.database.structs
  backed : h.database.Backed → h'.database.Backed

theorem Grows.refl (h : Host) : Grows h h := ⟨.refl h, rfl, id⟩

theorem Grows.trans {h h' h'' : Host} (g : Grows h h') (g' : Grows h' h'') : Grows h h'' :=
  ⟨g.extends_.trans g'.extends_, g'.structs.trans g.structs, fun hb => g'.backed (g.backed hb)⟩

theorem SameTypes.grows {h h' : Host} (hs : SameTypes h h') : Grows h h' := by
  refine ⟨hs.extends, hs.structs, fun hb => hb.of_types hs.extends.database fun hget _ => ?_⟩
  rwa [Database.numberedType?_congr hs.types] at hget

theorem grows_addNamedType? {h h' : Host} {name : String} {shape : TypeShape} {o : Ordinal}
    (hshape : ¬ shape.IsDefinition) (hadd : h.addNamedType? name shape = some (o, h')) :
    Grows h h' := by
  have he := extends_addNamedType? hadd
  obtain ⟨db, hdb, rfl⟩ := addNamedType?_eq_some hadd
  refine ⟨he, ?_, fun hb => hb.addNamedType? hshape hdb⟩
  obtain ⟨-, -, rfl⟩ := Database.addNamedType?_eq_some hdb
  rfl

theorem grows_addEnum? {h h' : Host} {name : Option String} {width : UInt8} {id : EnumId}
    (hc : h.database.Coherent) (hadd : h.addEnum? name width = some (id, h')) : Grows h h' := by
  have he := extends_addEnum? hc hadd
  obtain ⟨db, hdb, rfl⟩ := addEnum?_eq_some hadd
  obtain ⟨d, hadds⟩ := Database.addsEnum hc hdb
  exact ⟨he, Database.structs_addEnum? hc hdb, hadds.backed⟩

theorem grows_addEnumConstant? {h h' : Host} {id : EnumId} {name : String} {value : UInt64}
    (hadd : h.addEnumConstant? id name value = some h') : Grows h h' := by
  have he := extends_addEnumConstant? hadd
  obtain ⟨db, hdb, rfl⟩ := addEnumConstant?_eq_some hadd
  obtain ⟨d, hadds⟩ := Database.addsConstant hdb
  exact ⟨he, by rw [hadds.eq], hadds.backed⟩

/-! ## All calls -/

/-- What holds without a change that hands out something new, and after it, holds either way. -/
theorem of_hand {P : Host → Prop} {h : Host} {f : α → Reply} {r : Option (α × Host)} (hsame : P h)
    (hr : ∀ a h', r = some (a, h') → P h') : P (h.hand f r).2 := by
  rcases r with _ | ⟨a, h'⟩
  · exact hsame
  · exact hr a h' rfl

/-- What holds without a change and after it holds whether it is refused or not. -/
theorem of_attempt {P : Host → Prop} {h : Host} {r : Option Host} (hsame : P h)
    (hr : ∀ h', r = some h' → P h') : P (h.attempt r).2 := by
  rcases r with _ | h'
  · exact hsame
  · exact hr h' rfl

/-- What a call does to types and their definitions: it adds to them in its way, or it leaves them
alone. -/
inductive Alters (h : Host) : Call → Host → Prop
  | namedType {name : String} {shape : TypeShape} {o : Ordinal} {h' : Host} :
      h.addNamedType? name shape = some (o, h') → Alters h (.addNamedType name shape) h'
  | enum {name : Option String} {width : UInt8} {id : EnumId} {h' : Host} :
      h.addEnum? name width = some (id, h') → Alters h (.addEnum name width) h'
  | constant {id : EnumId} {name : String} {value : UInt64} {h' : Host} :
      h.addEnumConstant? id name value = some h' → Alters h (.addEnumConstant id name value) h'
  | struct {name : Option String} {isUnion : Bool} {id : StructId} {h' : Host} :
      h.addStruct? name isUnion = some (id, h') → Alters h (.addStruct name isUnion) h'
  | member {id : StructId} {m : Member} {h' : Host} :
      h.addStructMember? id m = some h' → Alters h (.addStructMember id m) h'
  | nothing {c : Call} {h' : Host} : h.SameTypes h' → Alters h c h'

theorem alters_perform (h : Host) (c : Call) : Alters h c (h.perform c).2 := by
  have hsame : Alters h c h := .nothing ⟨rfl, rfl, rfl, rfl, rfl⟩
  cases c with
  | addNamedType name shape => exact of_hand hsame fun _ _ hadd => .namedType hadd
  | addEnum name width => exact of_hand hsame fun _ _ hadd => .enum hadd
  | addEnumConstant id name value => exact of_attempt hsame fun _ hadd => .constant hadd
  | addStruct name isUnion => exact of_hand hsame fun _ _ hadd => .struct hadd
  | addStructMember id m => exact of_attempt hsame fun _ hadd => .member hadd
  | setName address name isLocal =>
    exact of_attempt hsame fun _ hset => .nothing (sameTypes_setName? hset)
  | addStackVariable function v =>
    exact of_attempt hsame fun _ hadd => .nothing (sameTypes_addStackVariable? hadd)
  | addRegisterVariable function v =>
    exact of_attempt hsame fun _ hadd => .nothing (sameTypes_addRegisterVariable? hadd)
  | addFunction | applyType | storeBlob => exact .nothing ⟨rfl, rfl, rfl, rfl, rfl⟩
  | typeCount | namedType | numberedType | typeSize | findEnum | enumWithConstant | enumDef
  | findStruct | structDef | functionAt | appliedType | nameAt | stackVariable | loadBlob =>
    exact hsame

theorem Alters.extends {h h' : Host} {c : Call} (ha : Alters h c h') (hc : h.database.Coherent) :
    Extends h h' := by
  cases ha with
  | namedType hadd => exact extends_addNamedType? hadd
  | enum hadd => exact extends_addEnum? hc hadd
  | constant hadd => exact extends_addEnumConstant? hadd
  | struct hadd => exact extends_addStruct? hc hadd
  | member hadd => exact extends_addStructMember? hadd
  | nothing hsame => exact hsame.extends

theorem extends_perform {h : Host} (hc : h.database.Coherent) (c : Call) :
    Extends h (h.perform c).2 :=
  (alters_perform h c).extends hc

/-- Carries out calls one after the other. -/
def performAll (h : Host) (calls : List Call) : Host := calls.foldl (fun h c => (h.perform c).2) h

theorem extends_performAll {h : Host} (hc : h.database.Coherent) (calls : List Call) :
    Extends h (h.performAll calls) := by
  induction calls generalizing h with
  | nil => exact .refl h
  | cons c rest ih =>
    have he := extends_perform hc c
    exact he.trans (ih (he.coherent hc))

/-- A host that was given nothing but calls. -/
def built (pointerSize : UInt64) (calls : List Call) : Host :=
  (ofDatabase (.empty pointerSize)).performAll calls

theorem coherent_built (pointerSize : UInt64) (calls : List Call) :
    (built pointerSize calls).database.Coherent :=
  (extends_performAll (Database.coherent_empty pointerSize) calls).coherent
    (Database.coherent_empty pointerSize)

theorem refuses_built (pointerSize : UInt64) (calls : List Call) (c : Call) :
    (built pointerSize calls).refuses c = false := by
  rw [built, (extends_performAll (Database.coherent_empty pointerSize) calls).refuses]
  rfl

end Host

end DebugSymbols
