import DebugSymbols.Proofs.Database.Calls

/-!
What changes of a database leave alone.  `Within` says that a database is still there in another
one: the enumerations are the same, and the variables of a function come first among those it has
then.  Only a constant for an enumeration that was there before breaks that.
-/

namespace DebugSymbols

namespace Database

/-- The enumerations and variables of the first database are there in the second. -/
structure Within (db db' : Database) : Prop where
  enums : ∀ {id d}, db.enumDef? id = some d → db'.enumDef? id = some d
  stack : ∀ f, db.stackVariablesOf f <+: db'.stackVariablesOf f
  registers : ∀ f, db.registerVariablesOf f <+: db'.registerVariablesOf f

theorem Within.refl (db : Database) : db.Within db :=
  ⟨id, fun _ => List.prefix_refl _, fun _ => List.prefix_refl _⟩

theorem Within.trans {db db' db'' : Database} (h : db.Within db') (h' : db'.Within db'') :
    db.Within db'' :=
  ⟨fun hd => h'.enums (h.enums hd), fun f => (h.stack f).trans (h'.stack f),
    fun f => (h.registers f).trans (h'.registers f)⟩

variable {db db' : Database}

/-- Only other things than variables differ. -/
structure SameVariables (db db' : Database) : Prop where
  stack : db'.stackVariables = db.stackVariables
  registers : db'.registerVariables = db.registerVariables

theorem SameVariables.stackVariablesOf (h : db.SameVariables db') (f : UInt64) :
    db'.stackVariablesOf f = db.stackVariablesOf f := by
  unfold Database.stackVariablesOf
  rw [h.stack]

theorem SameVariables.registerVariablesOf (h : db.SameVariables db') (f : UInt64) :
    db'.registerVariablesOf f = db.registerVariablesOf f := by
  unfold Database.registerVariablesOf
  rw [h.registers]

theorem SameVariables.within (h : db.SameVariables db')
    (henums : ∀ {id d}, db.enumDef? id = some d → db'.enumDef? id = some d) : db.Within db' :=
  ⟨henums, fun f => h.stackVariablesOf f ▸ List.prefix_refl _,
    fun f => h.registerVariablesOf f ▸ List.prefix_refl _⟩

theorem within_of_eq (henums : db'.enums = db.enums)
    (hstack : db'.stackVariables = db.stackVariables)
    (hregisters : db'.registerVariables = db.registerVariables) : db.Within db' :=
  SameVariables.within ⟨hstack, hregisters⟩ fun hd => by rwa [enumDef?, henums]

/-! ## Types -/

theorem within_addNamedType? {name : String} {shape : TypeShape} {o : Ordinal}
    (h : db.addNamedType? name shape = some (o, db')) : db.Within db' := by
  obtain ⟨-, -, rfl⟩ := addNamedType?_eq_some h
  exact within_of_eq rfl rfl rfl

/-- Reserving a type changes neither definitions nor variables. -/
theorem reserve?_eq_some {name : Option String} {kind : Kind} {shape : TypeShape}
    {taken : String} {o : Ordinal} (h : db.reserve? name kind shape = some (taken, o, db')) :
    db.SameVariables db' ∧ db'.enums = db.enums ∧ db'.structs = db.structs := by
  cases reservation h with
  | made | completed => exact ⟨⟨rfl, rfl⟩, rfl, rfl⟩
  | added hadd =>
    obtain ⟨-, -, rfl⟩ := addNamedType?_eq_some hadd
    exact ⟨⟨rfl, rfl⟩, rfl, rfl⟩

/-- A new enumeration is the next one, and has no constants. -/
theorem addEnum?_eq_some {name : Option String} {width : UInt8} {id : EnumId}
    (h : db.addEnum? name width = some (id, db')) :
    id = ⟨db.enums.size⟩ ∧ db.SameVariables db' ∧
      ∃ d, d.constants = [] ∧ db'.enums = db.enums.push d := by
  obtain ⟨⟨taken, o, db₁⟩, hreserve, hpush⟩ := Option.bind_eq_some_iff.mp h
  obtain ⟨hsame, henums, -⟩ := reserve?_eq_some hreserve
  cases hpush
  refine ⟨rfl, ⟨hsame.stack, hsame.registers⟩, ⟨taken, width, o, []⟩, rfl, ?_⟩
  rw [← henums]

theorem within_addEnum? {name : Option String} {width : UInt8} {id : EnumId}
    (h : db.addEnum? name width = some (id, db')) : db.Within db' := by
  obtain ⟨-, hsame, d, -, henums⟩ := addEnum?_eq_some h
  refine hsame.within fun {id' d'} hd => ?_
  have hlt : id'.val < db.enums.size := (Array.getElem?_eq_some_iff.mp hd).1
  rw [enumDef?, henums, Array.getElem?_push, if_neg (Nat.ne_of_lt hlt)]
  exact hd

/-- A constant changes no other enumeration. -/
theorem addEnumConstant?_eq_some {id : EnumId} {name : String} {value : UInt64}
    (h : db.addEnumConstant? id name value = some db') :
    db.SameVariables db' ∧ ∀ id', id' ≠ id → db'.enumDef? id' = db.enumDef? id' := by
  obtain ⟨d, hadds⟩ := addsConstant h
  refine ⟨by rw [hadds.eq]; exact ⟨rfl, rfl⟩, fun id' hne => ?_⟩
  rw [hadds.enumDef?, if_neg hne]

theorem within_addStruct? {name : Option String} {isUnion : Bool} {id : StructId}
    (h : db.addStruct? name isUnion = some (id, db')) : db.Within db' := by
  rw [addStruct?_eq] at h
  obtain ⟨⟨taken, o, db₁⟩, hreserve, hpush⟩ := Option.map_eq_some_iff.mp h
  obtain ⟨hsame, henums, -⟩ := reserve?_eq_some hreserve
  cases hpush
  exact within_of_eq henums hsame.stack hsame.registers

theorem within_addStructMember? {id : StructId} {m : Member}
    (h : db.addStructMember? id m = some db') : db.Within db' := by
  obtain ⟨d, hadds⟩ := addsMember h
  rw [hadds.eq]
  exact within_of_eq rfl rfl rfl

/-! ## Variables -/

theorem stackVariablesOf_addStackVariable? {f : UInt64} {v : StackVariable}
    (h : db.addStackVariable? f v = some db') (f' : UInt64) :
    db'.stackVariablesOf f' =
      if f' = f then db.stackVariablesOf f ++ [v] else db.stackVariablesOf f' := by
  unfold addStackVariable? at h
  split at h
  · cases h
  · cases h
    rw [stackVariablesOf, SortedMap.get?_insert]
    split <;> rfl

theorem registerVariablesOf_addRegisterVariable (db : Database) (f : UInt64)
    (v : RegisterVariable) (f' : UInt64) :
    (db.addRegisterVariable f v).registerVariablesOf f' =
      if f' = f then db.registerVariablesOf f ++ [v] else db.registerVariablesOf f' := by
  rw [registerVariablesOf, addRegisterVariable, SortedMap.get?_insert]
  split <;> rfl

theorem registerVariables_addStackVariable? {f : UInt64} {v : StackVariable}
    (h : db.addStackVariable? f v = some db') :
    db'.registerVariables = db.registerVariables := by
  unfold addStackVariable? at h
  split at h
  · cases h
  · cases h
    rfl

theorem within_addStackVariable? {f : UInt64} {v : StackVariable}
    (h : db.addStackVariable? f v = some db') : db.Within db' := by
  refine ⟨fun hd => ?_, fun f' => ?_, fun f' => ?_⟩
  · rwa [enumDef?, (addStackVariable?_eq_some h).2.2.2]
  · rw [stackVariablesOf_addStackVariable? h]
    split
    · rename_i hf
      rw [hf]
      exact List.prefix_append _ _
    · exact List.prefix_refl _
  · have hsame : db'.registerVariablesOf f' = db.registerVariablesOf f' := by
      rw [registerVariablesOf, registerVariables_addStackVariable? h, registerVariablesOf]
    exact hsame ▸ List.prefix_refl _

theorem within_addRegisterVariable (db : Database) (f : UInt64) (v : RegisterVariable) :
    db.Within (db.addRegisterVariable f v) := by
  refine ⟨id, fun f' => List.prefix_refl _, fun f' => ?_⟩
  rw [registerVariablesOf_addRegisterVariable]
  split
  · rename_i hf
    rw [hf]
    exact List.prefix_append _ _
  · exact List.prefix_refl _

end Database

/-! ## Calls -/

namespace Host

/-- What the database of a host has is there in that of the other, and that refuses the same
calls. -/
structure Within (h h' : Host) : Prop extends Database.Within h.database h'.database where
  refuses : h'.refuses = h.refuses

theorem Within.refl (h : Host) : h.Within h := ⟨.refl _, rfl⟩

variable {h h' h'' : Host}

theorem Within.trans (hw : h.Within h') (hw' : h'.Within h'') : h.Within h'' :=
  ⟨hw.toWithin.trans hw'.toWithin, hw'.refuses.trans hw.refuses⟩

theorem within_addNamedType? {name : String} {shape : TypeShape} {o : Ordinal}
    (hadd : h.addNamedType? name shape = some (o, h')) : h.Within h' := by
  obtain ⟨db, hdb, rfl⟩ := addNamedType?_eq_some hadd
  exact ⟨Database.within_addNamedType? hdb, rfl⟩

theorem within_addStruct? {name : Option String} {isUnion : Bool} {id : StructId}
    (hadd : h.addStruct? name isUnion = some (id, h')) : h.Within h' := by
  obtain ⟨db, hdb, rfl⟩ := addStruct?_eq_some hadd
  exact ⟨Database.within_addStruct? hdb, rfl⟩

theorem within_addStructMember? {id : StructId} {m : Member}
    (hadd : h.addStructMember? id m = some h') : h.Within h' := by
  obtain ⟨db, hdb, rfl⟩ := addStructMember?_eq_some hadd
  exact ⟨Database.within_addStructMember? hdb, rfl⟩

theorem addStackVariable?_eq_some {f : UInt64} {v : StackVariable}
    (hadd : h.addStackVariable? f v = some h') :
    ∃ db, h.database.addStackVariable? f v = some db ∧ h' = { h with database := db } := by
  unfold addStackVariable? at hadd
  split at hadd
  · cases hadd
  · obtain ⟨db, hdb, rfl⟩ := Option.map_eq_some_iff.mp hadd
    exact ⟨db, hdb, rfl⟩

theorem within_addStackVariable? {f : UInt64} {v : StackVariable}
    (hadd : h.addStackVariable? f v = some h') : h.Within h' := by
  obtain ⟨db, hdb, rfl⟩ := addStackVariable?_eq_some hadd
  exact ⟨Database.within_addStackVariable? hdb, rfl⟩

theorem addRegisterVariable?_eq_some {f : UInt64} {v : RegisterVariable}
    (hadd : h.addRegisterVariable? f v = some h') :
    h' = { h with database := h.database.addRegisterVariable f v } := by
  unfold addRegisterVariable? at hadd
  split at hadd
  · cases hadd
  · cases hadd
    rfl

theorem within_addRegisterVariable? {f : UInt64} {v : RegisterVariable}
    (hadd : h.addRegisterVariable? f v = some h') : h.Within h' := by
  rw [addRegisterVariable?_eq_some hadd]
  exact ⟨Database.within_addRegisterVariable _ f v, rfl⟩

theorem within_applyType (h : Host) (address : UInt64) (type : TypeLink) (size : UInt64) :
    h.Within (h.applyType address type size) :=
  ⟨Database.within_of_eq rfl rfl rfl, rfl⟩

theorem within_setName? {address : UInt64} {name : String} {isLocal : Bool}
    (hadd : h.setName? address name isLocal = some h') : h.Within h' := by
  unfold setName? at hadd
  split at hadd
  · cases hadd
  · cases hadd
    exact ⟨Database.within_of_eq rfl rfl rfl, rfl⟩

end Host

end DebugSymbols
