import DebugSymbols.Proofs.Database.Lasting

/-!
What a call does to a database.  A call that reports failure changes nothing.  One that succeeds
adds its own entry and leaves what was known as it was, except that a definition completes the
incomplete type of its name, which keeps its ordinal.  Main statement: `effect_built`, for
whatever calls a database was given.
-/

namespace DebugSymbols

/-! ## What a call is for -/

namespace Call

/-- The reply says that nothing was found, or that the call was refused.  Functions and blobs are
stored without an answer. -/
def Fails : Call → Reply → Prop
  | .addFunction _, _ | .storeBlob _ _, _ => False
  | _, r => r = .nothing ∨ r = .flag false

/-- The type of a stated name that a call defines. -/
def definition? : Call → Reply → Option NamedType
  | .addEnum name _, .enumId id => name.map fun name => ⟨name, .enum id⟩
  | .addStruct name isUnion, .structId id =>
    name.map fun name => ⟨name, if isUnion then .union id else .struct id⟩
  | _, _ => none

/-- The constants that a call adds to an enumeration. -/
def newConstants (id : EnumId) : Call → List (String × UInt64)
  | .addEnumConstant id' name value => if id' = id then [(name, value)] else []
  | _ => []

/-- The members that a call adds to a structure. -/
def newMembers (id : StructId) : Call → List Member
  | .addStructMember id' m => if id' = id then [m] else []
  | _ => []

/-- The stack variables that a call adds to a function. -/
def newStackVariables (f : UInt64) : Call → List StackVariable
  | .addStackVariable f' v => if f' = f then [v] else []
  | _ => []

/-- The register variables that a call adds to a function. -/
def newRegisterVariables (f : UInt64) : Call → List RegisterVariable
  | .addRegisterVariable f' v => if f' = f then [v] else []
  | _ => []

end Call

/-- What becomes of a type by a definition: an incomplete type of that name is completed. -/
def NamedType.completedBy (t : NamedType) : Option NamedType → NamedType
  | some d => if t.shape = .incomplete ∧ t.name = d.name then d else t
  | none => t

theorem NamedType.completedBy_eq_self {t : NamedType} (h : t.shape ≠ .incomplete)
    (d : Option NamedType) : t.completedBy d = t := by
  cases d with
  | none => rfl
  | some d => exact if_neg fun hd => h hd.1

namespace Database

variable {db db' db'' : Database}

/-- The type is made from the one with the ordinal, or is another name for it. -/
def Refers (db : Database) (t : NamedType) (o : Ordinal) : Prop :=
  match t.shape with
  | .const inner | .volatile inner | .pointer inner | .array inner _ | .function inner => inner = o
  | .typedef target => db.namedType? target = some o
  | _ => False

/-- The definition of that shape belongs to the type with the ordinal. -/
def Defines (db : Database) (o : Ordinal) : TypeShape → Prop
  | .enum id => ∃ d, db.enumDef? id = some d ∧ d.ordinal = o
  | .struct id | .union id => ∃ d, db.structDef? id = some d ∧ d.ordinal = o
  | _ => False

/-- What a call that succeeds makes of types and their definitions. -/
structure TypesCarried (db : Database) (c : Call) (r : Reply) (db' : Database) : Prop where
  pointerSize : db'.pointerSize = db.pointerSize
  types : ∀ {o t}, db.numberedType? o = some t →
    db'.numberedType? o = some (t.completedBy (c.definition? r))
  named : ∀ {name o}, db.namedType? name = some o → db'.namedType? name = some o
  /-- The definition is a new one, and the type of its name is the one it belongs to. -/
  defined : ∀ {t}, c.definition? r = some t → (∀ o, ¬ db.Defines o t.shape) ∧
    ∃ o, db'.namedType? t.name = some o ∧ db'.numberedType? o = some t ∧ db'.Defines o t.shape
  enums : ∀ {id d}, db.enumDef? id = some d →
    db'.enumDef? id = some { d with constants := d.constants ++ c.newConstants id }
  structs : ∀ {id d}, db.structDef? id = some d → ∃ before after, d.members = before ++ after ∧
    db'.structDef? id = some { d with members := before ++ c.newMembers id ++ after }

/-- What a call that succeeds makes of what is known about the program. -/
structure ProgramCarried (db : Database) (c : Call) (db' : Database) : Prop where
  stack : ∀ f, db'.stackVariablesOf f = db.stackVariablesOf f ++ c.newStackVariables f
  registers : ∀ f, db'.registerVariablesOf f = db.registerVariablesOf f ++ c.newRegisterVariables f
  functions : ∀ a, (∀ stop, c ≠ .addFunction ⟨a, stop⟩) →
    db'.functions.get? a = db.functions.get? a
  applied : ∀ a, (∀ type size, c ≠ .applyType a type size) →
    db'.applied.get? a = db.applied.get? a
  names : ∀ a, (∀ name isLocal, c ≠ .setName a name isLocal) →
    db'.names.get? a = db.names.get? a
  blobs : ∀ key, (∀ content, c ≠ .storeBlob key content) → db'.blobs.get? key = db.blobs.get? key

/-- What a call that succeeds makes of a database. -/
structure Carried (db : Database) (c : Call) (r : Reply) (db' : Database) : Prop where
  types : db.TypesCarried c r db'
  program : db.ProgramCarried c db'
  /-- Whatever refers to a type stays, and goes on referring to it. -/
  references : ∀ {o t target}, db.numberedType? o = some t → db.Refers t target →
    db'.numberedType? o = some t ∧ db'.Refers t target

/-- What refers to another type is complete, so that no definition takes its place. -/
theorem TypesCarried.references {c : Call} {r : Reply} (h : db.TypesCarried c r db') {o : Ordinal}
    {t : NamedType} {target : Ordinal} (ht : db.numberedType? o = some t)
    (hrefers : db.Refers t target) : db'.numberedType? o = some t ∧ db'.Refers t target := by
  have hshape : t.shape ≠ .incomplete := by
    intro hi
    simp [Refers, hi] at hrefers
  refine ⟨by rw [h.types ht, t.completedBy_eq_self hshape], ?_⟩
  unfold Refers at hrefers ⊢
  split at hrefers
  case h_6 => exact h.named hrefers
  case h_7 => exact hrefers.elim
  all_goals exact hrefers

theorem TypesCarried.carried {c : Call} {r : Reply} (h : db.TypesCarried c r db')
    (hp : db.ProgramCarried c db') : db.Carried c r db' :=
  ⟨h, hp, h.references⟩

/-! ## One part alone -/

theorem enumDef?_kept {c : Call} {id : EnumId} {d : EnumDef} (he : db'.enums = db.enums)
    (hconstants : c.newConstants id = []) (hd : db.enumDef? id = some d) :
    db'.enumDef? id = some { d with constants := d.constants ++ c.newConstants id } := by
  rw [hconstants, List.append_nil, enumDef?, he]
  exact hd

theorem structDef?_kept {c : Call} {id : StructId} {d : StructDef} (hs : db'.structs = db.structs)
    (hmembers : c.newMembers id = []) (hd : db.structDef? id = some d) :
    ∃ before after, d.members = before ++ after ∧
      db'.structDef? id = some { d with members := before ++ c.newMembers id ++ after } := by
  refine ⟨d.members, [], by simp, ?_⟩
  rw [hmembers, List.append_nil, List.append_nil, structDef?, hs]
  exact hd

theorem TypesCarried.of_eq {c : Call} {r : Reply} (hp : db'.pointerSize = db.pointerSize)
    (ht : db'.types = db.types) (hs : db'.structs = db.structs) (he : db'.enums = db.enums)
    (hdefinition : c.definition? r = none) (hconstants : ∀ id, c.newConstants id = [])
    (hmembers : ∀ id, c.newMembers id = []) : db.TypesCarried c r db' where
  pointerSize := hp
  types {o t} hget := by
    rw [numberedType?_congr ht, hget, hdefinition]
    rfl
  named hn := (extends_of_eq hp ht hs he).named hn
  defined hd := by
    rw [hdefinition] at hd
    cases hd
  enums hd := enumDef?_kept he (hconstants _) hd
  structs hd := structDef?_kept hs (hmembers _) hd

/-- Only types and definitions differ. -/
structure SameProgram (db db' : Database) : Prop where
  stack : db'.stackVariables = db.stackVariables
  registers : db'.registerVariables = db.registerVariables
  functions : db'.functions = db.functions
  applied : db'.applied = db.applied
  names : db'.names = db.names
  blobs : db'.blobs = db.blobs

theorem SameProgram.carried {c : Call} (h : db.SameProgram db')
    (hstack : ∀ f, c.newStackVariables f = [])
    (hregisters : ∀ f, c.newRegisterVariables f = []) : db.ProgramCarried c db' where
  stack f := by simp only [stackVariablesOf, h.stack, hstack, List.append_nil]
  registers f := by simp only [registerVariablesOf, h.registers, hregisters, List.append_nil]
  functions a _ := by rw [h.functions]
  applied a _ := by rw [h.applied]
  names a _ := by rw [h.names]
  blobs key _ := by rw [h.blobs]

/-! ## Types -/

theorem carried_addNamedType? {name : String} {shape : TypeShape} {o : Ordinal}
    (h : db.addNamedType? name shape = some (o, db')) :
    db.Carried (.addNamedType name shape) (.ordinal o) db' := by
  have he := extends_addNamedType? h
  obtain ⟨-, -, rfl⟩ := addNamedType?_eq_some h
  refine TypesCarried.carried ⟨rfl, fun {o' t} ht => ?_, he.named, nofun, enumDef?_kept rfl rfl,
    structDef?_kept rfl rfl⟩
    (SameProgram.carried ⟨rfl, rfl, rfl, rfl, rfl, rfl⟩ (fun _ => rfl) fun _ => rfl)
  rw [numberedType?_push rfl, if_neg (Nat.ne_of_lt (numberedType?_lt ht))]
  exact ht

theorem sameProgram_reserve? {name : Option String} {kind : Kind} {shape : TypeShape}
    {taken : String} {o : Ordinal} (h : db.reserve? name kind shape = some (taken, o, db')) :
    db.SameProgram db' := by
  cases reservation h with
  | made | completed => exact ⟨rfl, rfl, rfl, rfl, rfl, rfl⟩
  | added hadd =>
    obtain ⟨-, -, rfl⟩ := addNamedType?_eq_some hadd
    exact ⟨rfl, rfl, rfl, rfl, rfl, rfl⟩

/-- Reserving a type completes the incomplete type of the name that is stated, and no other. -/
theorem types_reserve? {name : Option String} {kind : Kind} {shape : TypeShape} {taken : String}
    {o : Ordinal} (hc : db.Coherent) (hd : shape.IsDefinition)
    (h : db.reserve? name kind shape = some (taken, o, db')) {o' : Ordinal} {t : NamedType}
    (ht : db.numberedType? o' = some t) :
    db'.numberedType? o' = some (t.completedBy (name.map fun name => ⟨name, shape⟩)) := by
  have hr := reserves hc hd h
  have hnames := hr.names
  cases name with
  | none =>
    cases h
    rw [numberedType?_push rfl, if_neg (Nat.ne_of_lt (numberedType?_lt ht))]
    exact ht
  | some name =>
    obtain rfl : taken = name := hnames
    have hc' := hc.of_extends hr.extends_ hr.structs hr.enums hr.nodup
    obtain ⟨t', ht', hbecomes⟩ := hr.extends_.types ht
    by_cases ho : o' = o
    · subst ho
      obtain rfl : t' = ⟨taken, shape⟩ := by
        rw [hr.type] at ht'
        exact (Option.some.inj ht').symm
      rw [ht']
      rcases hbecomes.shape with hshape | ⟨hi, -⟩
      · -- a type that is complete already is the definition
        have hcomplete : t.shape ≠ .incomplete := by
          rw [← hshape]
          rintro rfl
          exact hd
        rw [t.completedBy_eq_self hcomplete, ← hbecomes.eq hcomplete]
      · exact congrArg some (if_pos ⟨hi, hbecomes.name.symm⟩).symm
    · have hname : t.name ≠ taken := by
        intro hname
        have hnamed := hc'.named ht'
        rw [hbecomes.name, hname, hc'.named hr.type] at hnamed
        exact ho (Option.some.inj hnamed).symm
      rw [hr.types, if_neg ho, ht]
      exact congrArg some (if_neg fun h => hname h.2).symm

/-! ## Definitions -/

/-- A call that reserves a type and enters the definition behind it carries the rest over. -/
theorem TypesCarried.of_reserve? {c : Call} {r : Reply} {name : Option String} {kind : Kind}
    {shape : TypeShape} {taken : String} {o : Ordinal} (hc : db.Coherent) (hd : shape.IsDefinition)
    (h : db.reserve? name kind shape = some (taken, o, db'')) (htypes : db'.types = db''.types)
    (hp : db'.pointerSize = db''.pointerSize)
    (hdefinition : c.definition? r = name.map fun name => ⟨name, shape⟩)
    (hfresh : ∀ o, ¬ db.Defines o shape) (hdefines : db'.Defines o shape)
    (henums : ∀ {id d}, db.enumDef? id = some d → db'.enumDef? id = some d)
    (hstructs : ∀ {id d}, db.structDef? id = some d → db'.structDef? id = some d)
    (hconstants : ∀ id, c.newConstants id = []) (hmembers : ∀ id, c.newMembers id = []) :
    db.TypesCarried c r db' := by
  have hr := reserves hc hd h
  have hc'' := hc.of_extends hr.extends_ hr.structs hr.enums hr.nodup
  have hget (o : Ordinal) : db'.numberedType? o = db''.numberedType? o :=
    numberedType?_congr htypes o
  have hnamed (name : String) : db'.namedType? name = db''.namedType? name :=
    namedType?_congr (by simp only [typeNames, htypes]) name
  refine ⟨hp.trans hr.extends_.pointerSize, fun {o' t} ht => ?_, fun {name o'} hn => ?_,
    fun {t} ht => ?_, fun {id d} hd' => ?_, fun {id d} hd' => ⟨d.members, [], by simp, ?_⟩⟩
  · rw [hget, hdefinition]
    exact types_reserve? hc hd h ht
  · rw [hnamed]
    exact hr.extends_.named hn
  · rw [hdefinition] at ht
    obtain ⟨stated, rfl, rfl⟩ := Option.map_eq_some_iff.mp ht
    obtain rfl : taken = stated := hr.names
    refine ⟨hfresh, o, ?_, ?_, hdefines⟩
    · rw [hnamed]
      exact hc''.named hr.type
    · rw [hget]
      exact hr.type
  · rw [hconstants, List.append_nil]
    exact henums hd'
  · rw [hmembers, List.append_nil, List.append_nil]
    exact hstructs hd'

theorem carried_addEnum? {name : Option String} {width : UInt8} {id : EnumId} (hc : db.Coherent)
    (h : db.addEnum? name width = some (id, db')) :
    db.Carried (.addEnum name width) (.enumId id) db' := by
  have hwithin := within_addEnum? h
  obtain ⟨⟨taken, o, db₁⟩, hreserve, hpush⟩ := Option.bind_eq_some_iff.mp h
  obtain ⟨-, hsame, hstructs⟩ := reserve?_eq_some hreserve
  have hprogram := sameProgram_reserve? hreserve
  cases hpush
  have hd : (TypeShape.enum ⟨db.enums.size⟩).IsDefinition := trivial
  refine TypesCarried.carried (.of_reserve? hc hd hreserve rfl rfl rfl ?_ ?_ hwithin.enums ?_
    (fun _ => rfl) fun _ => rfl)
    (SameProgram.carried ⟨hprogram.stack, hprogram.registers, hprogram.functions, hprogram.applied,
      hprogram.names, hprogram.blobs⟩ (fun _ => rfl) fun _ => rfl)
  · rintro o' ⟨d, hd, -⟩
    simp [enumDef?] at hd
  · exact ⟨⟨taken, width, o, []⟩, by simp [enumDef?, hsame], rfl⟩
  · intro id d hd
    rwa [structDef?, hstructs]

theorem carried_addStruct? {name : Option String} {isUnion : Bool} {id : StructId}
    (hc : db.Coherent) (h : db.addStruct? name isUnion = some (id, db')) :
    db.Carried (.addStruct name isUnion) (.structId id) db' := by
  have hkept (id' : StructId) (d : StructDef) (hd : db.structDef? id' = some d) :
      db'.structDef? id' = some d := by
    obtain ⟨new, hadds⟩ := addsStruct hc h
    have hlt : id'.val < db.structs.size := (Array.getElem?_eq_some_iff.mp hd).1
    rw [hadds.structDef?, if_neg, hd]
    rw [hadds.id]
    rintro rfl
    exact Nat.lt_irrefl _ hlt
  rw [addStruct?_eq] at h
  obtain ⟨⟨taken, o, db₁⟩, hreserve, hpush⟩ := Option.map_eq_some_iff.mp h
  obtain ⟨-, henums, hsame⟩ := reserve?_eq_some hreserve
  have hprogram := sameProgram_reserve? hreserve
  cases hpush
  have hd : (if isUnion then TypeShape.union ⟨db.structs.size⟩
      else .struct ⟨db.structs.size⟩).IsDefinition := by
    cases isUnion <;> trivial
  refine TypesCarried.carried (.of_reserve? hc hd hreserve rfl rfl rfl ?_ ?_ ?_ (hkept _ _)
    (fun _ => rfl) fun _ => rfl)
    (SameProgram.carried ⟨hprogram.stack, hprogram.registers, hprogram.functions, hprogram.applied,
      hprogram.names, hprogram.blobs⟩ (fun _ => rfl) fun _ => rfl)
  · have hnone : db.structDef? ⟨db.structs.size⟩ = none := by simp [structDef?]
    intro o'
    cases isUnion with
    | false => simp [Defines, hnone]
    | true => simp [Defines, hnone]
  · have hsome : ({ db₁ with structs := db₁.structs.push ⟨taken, isUnion, o, []⟩ } :
        Database).structDef? ⟨db.structs.size⟩ = some ⟨taken, isUnion, o, []⟩ := by
      simp [structDef?, hsame]
    cases isUnion with
    | false => exact ⟨_, hsome, rfl⟩
    | true => exact ⟨_, hsome, rfl⟩
  · intro id d hd
    rwa [enumDef?, henums]

theorem carried_addEnumConstant? {id : EnumId} {name : String} {value : UInt64}
    (h : db.addEnumConstant? id name value = some db') :
    db.Carried (.addEnumConstant id name value) (.flag true) db' := by
  obtain ⟨d, hadds⟩ := addsConstant h
  have hget := hadds.enumDef?
  have hknown := hadds.known
  have hsame : db.SameProgram db' := by
    rw [hadds.eq]
    exact ⟨rfl, rfl, rfl, rfl, rfl, rfl⟩
  have hstructs : db'.structs = db.structs := by rw [hadds.eq]
  refine TypesCarried.carried ⟨by rw [hadds.eq], fun {o t} ht => ?_, fun {name' o} hn => ?_, nofun,
    fun {id' d'} hd => ?_, structDef?_kept hstructs rfl⟩ (hsame.carried (fun _ => rfl) fun _ => rfl)
  · rw [hadds.eq]
    exact ht
  · rw [hadds.eq]
    exact hn
  · rw [hget]
    by_cases hid : id' = id
    · subst hid
      rw [hknown] at hd
      cases hd
      simp [Call.newConstants]
    · simpa [Call.newConstants, hid, Ne.symm hid] using hd

theorem carried_addStructMember? {id : StructId} {m : Member}
    (h : db.addStructMember? id m = some db') :
    db.Carried (.addStructMember id m) (.flag true) db' := by
  obtain ⟨d, hadds⟩ := addsMember h
  have hget := hadds.structDef?
  have hknown := hadds.known
  have hsame : db.SameProgram db' := by
    rw [hadds.eq]
    exact ⟨rfl, rfl, rfl, rfl, rfl, rfl⟩
  have henums : db'.enums = db.enums := by rw [hadds.eq]
  refine TypesCarried.carried ⟨by rw [hadds.eq], fun {o t} ht => ?_, fun {name' o} hn => ?_, nofun,
    enumDef?_kept henums rfl, fun {id' d'} hd => ?_⟩ (hsame.carried (fun _ => rfl) fun _ => rfl)
  · rw [hadds.eq]
    exact ht
  · rw [hadds.eq]
    exact hn
  · refine ⟨d'.members.takeWhile (·.offset ≤ m.offset), d'.members.dropWhile (·.offset ≤ m.offset),
      List.takeWhile_append_dropWhile.symm, ?_⟩
    rw [hget]
    by_cases hid : id' = id
    · subst hid
      rw [hknown] at hd
      cases hd
      simp [Call.newMembers, insertMember]
    · simpa [Call.newMembers, hid, Ne.symm hid] using hd

/-! ## The program -/

theorem carried_addFunction (db : Database) (range : AddressRange) :
    db.Carried (.addFunction range) .nothing (db.addFunction range) := by
  refine TypesCarried.carried (.of_eq rfl rfl rfl rfl rfl (fun _ => rfl) fun _ => rfl)
    ⟨fun _ => (List.append_nil _).symm, fun _ => (List.append_nil _).symm, fun a hne => ?_,
      fun _ _ => rfl, fun _ _ => rfl, fun _ _ => rfl⟩
  rw [addFunction, SortedMap.get?_insert, if_neg]
  rintro rfl
  exact hne range.stop rfl

theorem carried_applyType (db : Database) (address : UInt64) (type : TypeLink) (size : UInt64) :
    db.Carried (.applyType address type size) (.flag true) (db.applyType address type size) := by
  refine TypesCarried.carried (.of_eq rfl rfl rfl rfl rfl (fun _ => rfl) fun _ => rfl)
    ⟨fun _ => (List.append_nil _).symm, fun _ => (List.append_nil _).symm, fun _ _ => rfl,
      fun a hne => ?_, fun _ _ => rfl, fun _ _ => rfl⟩
  rw [applyType, SortedMap.get?_insert, if_neg]
  rintro rfl
  exact hne type size rfl

theorem carried_setName (db : Database) (address : UInt64) (name : String) (isLocal : Bool) :
    db.Carried (.setName address name isLocal) (.flag true) (db.setName address name isLocal) := by
  refine TypesCarried.carried (.of_eq rfl rfl rfl rfl rfl (fun _ => rfl) fun _ => rfl)
    ⟨fun _ => (List.append_nil _).symm, fun _ => (List.append_nil _).symm, fun _ _ => rfl,
      fun _ _ => rfl, fun a hne => ?_, fun _ _ => rfl⟩
  rw [setName, SortedMap.get?_insert, if_neg]
  rintro rfl
  exact hne name isLocal rfl

theorem carried_storeBlob (db : Database) (key : String) (content : List UInt8) :
    db.Carried (.storeBlob key content) .nothing (db.storeBlob key content) := by
  refine TypesCarried.carried (.of_eq rfl rfl rfl rfl rfl (fun _ => rfl) fun _ => rfl)
    ⟨fun _ => (List.append_nil _).symm, fun _ => (List.append_nil _).symm, fun _ _ => rfl,
      fun _ _ => rfl, fun _ _ => rfl, fun k hne => ?_⟩
  rw [storeBlob, SortedMap.get?_insert, if_neg]
  rintro rfl
  exact hne content rfl

theorem carried_addStackVariable? {f : UInt64} {v : StackVariable}
    (h : db.addStackVariable? f v = some db') :
    db.Carried (.addStackVariable f v) (.flag true) db' := by
  obtain ⟨hp, ht, hs, he⟩ := addStackVariable?_eq_some h
  have hstack := stackVariablesOf_addStackVariable? h
  have hother : db'.registerVariables = db.registerVariables ∧ db'.functions = db.functions ∧
      db'.applied = db.applied ∧ db'.names = db.names ∧ db'.blobs = db.blobs := by
    unfold addStackVariable? at h
    split at h
    · cases h
    · cases h
      exact ⟨rfl, rfl, rfl, rfl, rfl⟩
  obtain ⟨hregisters, hfunctions, happlied, hnames, hblobs⟩ := hother
  refine TypesCarried.carried (.of_eq hp ht hs he rfl (fun _ => rfl) fun _ => rfl)
    ⟨fun f' => ?_, fun f' => ?_, fun _ _ => by rw [hfunctions], fun _ _ => by rw [happlied],
      fun _ _ => by rw [hnames], fun _ _ => by rw [hblobs]⟩
  · rw [hstack]
    by_cases hf : f' = f
    · simp [Call.newStackVariables, hf]
    · simp [Call.newStackVariables, hf, Ne.symm hf]
  · simp [registerVariablesOf, hregisters, Call.newRegisterVariables]

theorem carried_addRegisterVariable (db : Database) (f : UInt64) (v : RegisterVariable) :
    db.Carried (.addRegisterVariable f v) (.flag true) (db.addRegisterVariable f v) := by
  refine TypesCarried.carried (.of_eq rfl rfl rfl rfl rfl (fun _ => rfl) fun _ => rfl)
    ⟨fun _ => (List.append_nil _).symm, fun f' => ?_, fun _ _ => rfl, fun _ _ => rfl,
      fun _ _ => rfl, fun _ _ => rfl⟩
  rw [registerVariablesOf_addRegisterVariable]
  by_cases hf : f' = f
  · simp [Call.newRegisterVariables, hf]
  · simp [Call.newRegisterVariables, hf, Ne.symm hf]

/-- A call that only asks carries everything over. -/
theorem carried_query {c : Call} {r : Reply} (hdefinition : c.definition? r = none)
    (hconstants : ∀ id, c.newConstants id = []) (hmembers : ∀ id, c.newMembers id = [])
    (hstack : ∀ f, c.newStackVariables f = [])
    (hregisters : ∀ f, c.newRegisterVariables f = []) : db.Carried c r db :=
  TypesCarried.carried (.of_eq rfl rfl rfl rfl hdefinition hconstants hmembers)
    (SameProgram.carried ⟨rfl, rfl, rfl, rfl, rfl, rfl⟩ hstack hregisters)

/-! ## One call after the other -/

/-- What any number of calls leave: handles go on meaning what they meant, constants and variables
stay in front of new ones, and members in their order. -/
structure Kept (db db' : Database) : Prop where
  extends_ : db.Extends db'
  constants : ∀ {id d}, db.enumDef? id = some d →
    ∃ added, db'.enumDef? id = some { d with constants := d.constants ++ added }
  members : ∀ {id d}, db.structDef? id = some d →
    ∃ members, db'.structDef? id = some { d with members } ∧ d.members.Sublist members
  stack : ∀ f, db.stackVariablesOf f <+: db'.stackVariablesOf f
  registers : ∀ f, db.registerVariablesOf f <+: db'.registerVariablesOf f

theorem Kept.refl (db : Database) : db.Kept db :=
  ⟨.refl db, fun {_ d} hd => ⟨[], by rw [List.append_nil]; exact hd⟩,
    fun hd => ⟨_, hd, .refl _⟩, fun _ => List.prefix_refl _, fun _ => List.prefix_refl _⟩

theorem Kept.trans (h : db.Kept db') (h' : db'.Kept db'') : db.Kept db'' := by
  refine ⟨h.extends_.trans h'.extends_, fun {id d} hd => ?_, fun {id d} hd => ?_,
    fun f => (h.stack f).trans (h'.stack f), fun f => (h.registers f).trans (h'.registers f)⟩
  · obtain ⟨added, hd'⟩ := h.constants hd
    obtain ⟨added', hd''⟩ := h'.constants hd'
    exact ⟨added ++ added', by rw [hd'', List.append_assoc]⟩
  · obtain ⟨members, hd', hsub⟩ := h.members hd
    obtain ⟨members', hd'', hsub'⟩ := h'.members hd'
    exact ⟨members', hd'', hsub.trans hsub'⟩

theorem Carried.kept {c : Call} {r : Reply} (h : db.Carried c r db') (he : db.Extends db') :
    db.Kept db' := by
  refine ⟨he, fun hd => ⟨_, h.types.enums hd⟩, fun {id d} hd => ?_, fun f => ?_, fun f => ?_⟩
  · obtain ⟨before, after, hsplit, hd'⟩ := h.types.structs hd
    refine ⟨_, hd', ?_⟩
    rw [hsplit, List.append_assoc]
    exact List.Sublist.append_left (List.sublist_append_right _ _) before
  · exact ⟨_, (h.program.stack f).symm⟩
  · exact ⟨_, (h.program.registers f).symm⟩

end Database

/-! ## Calls to a host -/

namespace Host

open Database

/-- What a call comes to: it reports failure and has no effect, or it is carried out. -/
inductive Effect (h : Host) (c : Call) : Reply → Host → Prop where
  | failed {r : Reply} (hr : c.Fails r) : Effect h c r h
  | done {r : Reply} {h' : Host} (hr : ¬ c.Fails r) (hrefuses : h'.refuses = h.refuses)
    (hcarried : h.database.Carried c r h'.database) : Effect h c r h'

variable {h : Host} {c : Call}

theorem Effect.of_hand {f : α → Reply} {result : Option (α × Host)} (hnone : c.Fails .nothing)
    (hsome : ∀ a h', result = some (a, h') → ¬ c.Fails (f a) ∧
      ∃ db, h.database.Carried c (f a) db ∧ h' = { h with database := db }) :
    Effect h c (h.hand f result).1 (h.hand f result).2 := by
  rcases result with _ | ⟨a, h'⟩
  · exact .failed hnone
  · obtain ⟨hr, db, hcarried, rfl⟩ := hsome a h' rfl
    exact .done hr rfl hcarried

theorem Effect.of_attempt {result : Option Host} (hfalse : c.Fails (.flag false))
    (htrue : ¬ c.Fails (.flag true))
    (hsome : ∀ h', result = some h' →
      ∃ db, h.database.Carried c (.flag true) db ∧ h' = { h with database := db }) :
    Effect h c (h.attempt result).1 (h.attempt result).2 := by
  rcases result with _ | h'
  · exact .failed hfalse
  · obtain ⟨db, hcarried, rfl⟩ := hsome h' rfl
    exact .done htrue rfl hcarried

/-- A call that only asks has no effect, whatever the answer. -/
theorem Effect.of_query {r : Reply} (hcarried : h.database.Carried c r h.database) :
    Effect h c r h := by
  by_cases hr : c.Fails r
  · exact .failed hr
  · exact .done hr rfl hcarried

theorem effect_perform (hc : h.database.Coherent) (c : Call) :
    Effect h c (h.perform c).1 (h.perform c).2 := by
  cases c with
  | addNamedType name shape =>
    refine Effect.of_hand (.inl rfl) fun o h' hadd => ⟨by simp [Call.Fails], ?_⟩
    obtain ⟨db, hdb, rfl⟩ := addNamedType?_eq_some hadd
    exact ⟨db, carried_addNamedType? hdb, rfl⟩
  | addEnum name width =>
    refine Effect.of_hand (.inl rfl) fun o h' hadd => ⟨by simp [Call.Fails], ?_⟩
    obtain ⟨db, hdb, rfl⟩ := addEnum?_eq_some hadd
    exact ⟨db, carried_addEnum? hc hdb, rfl⟩
  | addEnumConstant id name value =>
    refine Effect.of_attempt (.inr rfl) (by simp [Call.Fails]) fun h' hadd => ?_
    obtain ⟨db, hdb, rfl⟩ := addEnumConstant?_eq_some hadd
    exact ⟨db, carried_addEnumConstant? hdb, rfl⟩
  | addStruct name isUnion =>
    refine Effect.of_hand (.inl rfl) fun o h' hadd => ⟨by simp [Call.Fails], ?_⟩
    obtain ⟨db, hdb, rfl⟩ := addStruct?_eq_some hadd
    exact ⟨db, carried_addStruct? hc hdb, rfl⟩
  | addStructMember id m =>
    refine Effect.of_attempt (.inr rfl) (by simp [Call.Fails]) fun h' hadd => ?_
    obtain ⟨db, hdb, rfl⟩ := addStructMember?_eq_some hadd
    exact ⟨db, carried_addStructMember? hdb, rfl⟩
  | setName address name isLocal =>
    refine Effect.of_attempt (.inr rfl) (by simp [Call.Fails]) fun h' hset => ?_
    unfold setName? at hset
    split at hset
    · cases hset
    · cases hset
      exact ⟨_, carried_setName _ _ _ _, rfl⟩
  | addStackVariable f v =>
    refine Effect.of_attempt (.inr rfl) (by simp [Call.Fails]) fun h' hadd => ?_
    obtain ⟨db, hdb, rfl⟩ := addStackVariable?_eq_some hadd
    exact ⟨db, carried_addStackVariable? hdb, rfl⟩
  | addRegisterVariable f v =>
    refine Effect.of_attempt (.inr rfl) (by simp [Call.Fails]) fun h' hadd => ?_
    exact ⟨_, carried_addRegisterVariable _ f v, addRegisterVariable?_eq_some hadd⟩
  | addFunction range => exact .done id rfl (carried_addFunction _ range)
  | applyType address type size =>
    exact .done (by simp [Call.Fails, perform]) rfl (carried_applyType _ _ _ _)
  | storeBlob key content => exact .done id rfl (carried_storeBlob _ _ _)
  | typeCount | namedType | numberedType | typeSize | findEnum | enumWithConstant | enumDef
  | findStruct | structDef | functionAt | appliedType | nameAt | stackVariable | loadBlob =>
    exact .of_query (carried_query rfl (fun _ => rfl) (fun _ => rfl) (fun _ => rfl) fun _ => rfl)

theorem kept_perform (hc : h.database.Coherent) (c : Call) :
    h.database.Kept (h.perform c).2.database := by
  have he := (extends_perform hc c).database
  have heffect := effect_perform hc c
  generalize (h.perform c).2 = h' at heffect he ⊢
  cases heffect with
  | failed hr => exact .refl _
  | done hr hrefuses hcarried => exact hcarried.kept he

theorem kept_performAll (hc : h.database.Coherent) (calls : List Call) :
    h.database.Kept (h.performAll calls).database := by
  induction calls generalizing h with
  | nil => exact .refl _
  | cons c rest ih =>
    exact (kept_perform hc c).trans (ih ((extends_perform hc c).coherent hc))

/-- Whatever calls a database was given, the next one either reports failure and changes nothing,
or adds its own entry and completes the incomplete type of its name at most; and handles go on
meaning what they meant whatever calls follow. -/
theorem effect_built (pointerSize : UInt64) (calls : List Call) (c : Call) (later : List Call) :
    Effect (built pointerSize calls) c ((built pointerSize calls).perform c).1
        ((built pointerSize calls).perform c).2 ∧
      (built pointerSize calls).database.Kept (built pointerSize (calls ++ later)).database := by
  have hc := coherent_built pointerSize calls
  refine ⟨effect_perform hc c, ?_⟩
  have hlater : built pointerSize (calls ++ later) = (built pointerSize calls).performAll later :=
    List.foldl_append
  rw [hlater]
  exact kept_performAll hc later

/-- A pointer to a declared structure leads to its definition, once that is there. -/
example :
    let db := (built 8 [.addNamedType "node" .incomplete, .addNamedType "node *" (.pointer ⟨1⟩),
      .addStruct (some "node") false]).database
    db.numberedType? ⟨1⟩ = some ⟨"node", .struct ⟨0⟩⟩ ∧
      db.numberedType? ⟨2⟩ = some ⟨"node *", .pointer ⟨1⟩⟩ := by
  decide +kernel

end Host

end DebugSymbols
